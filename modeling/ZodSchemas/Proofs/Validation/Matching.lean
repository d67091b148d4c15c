import ZodSchemas.Proofs.Validation.Acceptance
import ZodSchemas.Proofs.Value.Json

/-!
# Which values match a listed one

A value is accepted by a node that lists values when one of them is of its sort
and equals it. Equality inside lists and mappings does not ask for sorts: there
the integer one, the float one and truth are the same. Unless such atoms meet, a
value is accepted exactly when a listed one coincides with it, sort by sort on
every level and whatever the order of keys.
-/

namespace ZodSchemas

namespace Value

/-- Two trees correspond: lists item by item, mappings under each key, and atoms as a relation
says. -/
inductive Corresponds (r : Key → Key → Prop) : Value → Value → Prop where
  /-- Atoms that are related. -/
  | atom {a b : Key} (related : r a b) : Corresponds r (.atom a) (.atom b)
  /-- Lists of the same length. -/
  | list {xs ys : List Value} (length : xs.length = ys.length)
      (items : ∀ e ∈ xs.zip ys, Corresponds r e.1 e.2) : Corresponds r (.list xs) (.list ys)
  /-- Mappings with the same keys. -/
  | map {xs ys : Entries Value} (length : xs.length = ys.length)
      (keys : ∀ e ∈ ys, Entries.has e.1 xs = true)
      (values : ∀ e ∈ ys, ∀ x, Entries.find? e.1 xs = some x → Corresponds r x e.2) :
      Corresponds r (.map xs) (.map ys)

/-- Equal, and of the same sort on every level. -/
abbrev Coincides : Value → Value → Prop :=
  Corresponds fun a b => kindOf a = kindOf b ∧ a.same b = true

/-- Equal, whatever the sorts of the atoms. -/
abbrev Resembles : Value → Value → Prop := Corresponds fun a b => a.same b = true

/-- Somewhere at the same place two values have equal atoms of different sorts. -/
inductive Confuses : Value → Value → Prop where
  /-- The values are such atoms. -/
  | atom {a b : Key} (sorts : kindOf a ≠ kindOf b) (same : a.same b = true) :
      Confuses (.atom a) (.atom b)
  /-- There are such atoms at an index. -/
  | item {xs ys : List Value} {e : Value × Value} (member : e ∈ xs.zip ys)
      (inside : Confuses e.1 e.2) : Confuses (.list xs) (.list ys)
  /-- There are such atoms under a key. -/
  | value {xs ys : Entries Value} {e : Key × Value} {x : Value} (member : e ∈ ys)
      (found : Entries.find? e.1 xs = some x) (inside : Confuses x e.2) :
      Confuses (.map xs) (.map ys)

variable {v w : Value}

/-- Values that coincide are of the same sort. -/
theorem Coincides.kind_eq (h : v.Coincides w) : v.kind = w.kind := by
  cases h with
  | atom related => exact related.1
  | list _ _ => rfl
  | map _ _ _ => rfl

/-- Values that coincide are equal. -/
theorem Coincides.resembles (h : v.Coincides w) : v.Resembles w := by
  induction h with
  | atom related => exact .atom related.2
  | list length _ ih => exact .list length ih
  | map length keys _ ih => exact .map length keys ih

/-- Values that coincide do not have equal atoms of different sorts at the same place. -/
theorem Coincides.not_confuses (h : v.Coincides w) : ¬ v.Confuses w := by
  intro hc
  induction h with
  | atom related =>
    cases hc with
    | atom sorts _ => exact sorts related.1
  | list _ _ ih =>
    cases hc with
    | item member inside => exact ih _ member inside
  | map _ _ _ ih =>
    cases hc with
    | value member found inside => exact ih _ member _ found inside

/-- Equal values coincide unless they have equal atoms of different sorts at the same place. -/
theorem Resembles.coincides (h : v.Resembles w) (hc : ¬ v.Confuses w) : v.Coincides w := by
  induction h with
  | @atom a b related =>
    by_cases hk : kindOf a = kindOf b
    · exact .atom ⟨hk, related⟩
    · exact absurd (.atom hk related) hc
  | list length _ ih =>
    exact .list length fun e he => ih e he fun hi => hc (.item he hi)
  | map length keys _ ih =>
    exact .map length keys fun e he x hx => ih e he x hx fun hi => hc (.value he hx hi)

/-- Two JSON values are equal as parts of others when they resemble each other. -/
theorem same_iff_resembles (hv : v.IsJson) (hw : w.IsJson) :
    v.same w = true ↔ v.Resembles w := by
  constructor
  · intro h
    induction hw generalizing v with
    | @list ys _ ih =>
      obtain ⟨xs, hs, hxy⟩ := same_list.mp h
      cases hv with
      | @list items values =>
        obtain rfl : items = xs := by simpa [shape] using hs
        refine .list hxy.length_eq fun e he => ?_
        have hmem := List.of_mem_zip he
        exact ih e.2 hmem.2 (values e.1 hmem.1) (List.forall₂_zip hxy he)
      | _ => simp [shape] at hs
    | @map ys _ _ _ ih =>
      obtain ⟨xs, hs, hl, hxy⟩ := same_map.mp h
      cases hv with
      | @map entries _ _ values =>
        obtain rfl : entries = xs := by simpa [shape] using hs
        refine .map hl (fun e he => ?_) fun e he x hx => ?_
        · obtain ⟨x, hx, -⟩ := hxy e he
          exact Entries.has_of_find? hx
        · obtain ⟨y, hy, hs⟩ := hxy e he
          obtain rfl := Option.some.inj (hx.symm.trans hy)
          obtain ⟨k, -, hm⟩ := Entries.mem_of_find? hx
          exact ih e he (values _ hm) hs
      | _ => simp [shape] at hs
    | _ =>
      obtain ⟨key, hk, hs⟩ := same_atom.mp h
      obtain rfl : v = .atom key := by cases hv <;> simp_all [shape]
      exact .atom hs
  · intro h
    clear hv hw
    induction h with
    | atom related => exact same_atom.mpr ⟨_, rfl, related⟩
    | list length _ ih =>
      exact same_list.mpr ⟨_, rfl, List.forall₂_iff_zip.mpr ⟨length, fun he => ih _ he⟩⟩
    | map length keys _ ih =>
      refine same_map.mpr ⟨_, rfl, length, fun e he => ?_⟩
      obtain ⟨x, hx⟩ := Entries.exists_find? (keys e he)
      exact ⟨x, hx, ih e he x hx⟩

end Value

/-- The values that a node lists. -/
def Node.listed? : Node → Option (List Value)
  | .enum values => some values
  | .literal v => some [v]
  | _ => none

namespace Validation

variable {registry : Registry} {node : Node} {values : List Value} {v : Value}

/-- A value is accepted by a node that lists values when it matches one of them, however what is
inside values and behind references is judged. -/
theorem step_listed {descend : Node → Option Value → Path → Judging}
    {follow : Ref → Option Value → Path → Judging} (hl : node.listed? = some values) (path : Path)
    (data : Option Value) : (step descend follow node (some v) path).outcome = .ok ⟨data, []⟩ ↔
      data = some v ∧ ∃ allowed ∈ values, allowed.isMatch v = true := by
  have hrejected : ∀ complaint, (rejectWith v path complaint).outcome ≠ .ok ⟨data, []⟩ := by
    intro complaint h
    obtain ⟨message, -, h⟩ := Traced.bind_eq_ok.mp h
    simp [Verdict.reject] at h
  have haccepted : Verdict.accept (some v) = ⟨data, []⟩ ↔ data = some v := by
    simp [Verdict.accept, eq_comm]
  cases node with
  | enum listed =>
    obtain rfl : listed = values := by simpa [Node.listed?] using hl
    rw [step]
    split
    · next h => simp [haccepted, List.any_eq_true.mp h]
    · next h => simpa [hrejected] using fun _ => by simpa using h
  | literal allowed =>
    obtain rfl : [allowed] = values := by simpa [Node.listed?] using hl
    rw [step]
    split
    · next h => simp [haccepted, h]
    · next h => simp [hrejected, h]
  | _ => simp [Node.listed?] at hl

/-- A node that lists values accepts those that match a listed one. -/
theorem accepts_iff_isMatch (hl : node.listed? = some values) :
    registry.Accepts node (some v) ↔ ∃ allowed ∈ values, allowed.isMatch v = true := by
  have hlevel : ∀ descend fuel refs data,
      (level registry descend fuel refs node (some v) []).outcome = .ok ⟨data, []⟩ ↔
        data = some v ∧ ∃ allowed ∈ values, allowed.isMatch v = true := by
    intro descend fuel refs data
    cases fuel <;> exact step_listed hl [] data
  simp only [Registry.Accepts, parse_eq_data, validate, validateAt, depthOf, within, hlevel,
    exists_eq_left]

/-- A listed value matches when it is of the same sort and resembles the value; what is no number
matches nothing. -/
theorem isMatch_iff_resembles {allowed : Value} (ha : allowed.IsJson) (hv : v.IsJson) :
    allowed.isMatch v = true ↔
      (∀ mark, v ≠ .float (.nan mark)) ∧ allowed.kind = v.kind ∧ allowed.Resembles v := by
  rw [Value.isMatch, Bool.and_eq_true, beq_iff_eq, Value.equals_iff,
    Value.same_iff_resembles ha hv]
  constructor
  · rintro ⟨hk, hr, hn⟩
    refine ⟨?_, hk, hr⟩
    rintro mark rfl
    cases hr with
    | @atom key _ related =>
      have hsame : (Value.float (.nan mark)).same (.atom key) = true :=
        Value.same_atom.mpr ⟨_, rfl, Key.same_comm .. ▸ related⟩
      obtain ⟨other, ho⟩ := Value.eq_nan_of_same ha hsame
      exact hn other mark ⟨ho, rfl⟩
  · rintro ⟨hn, hk, hr⟩
    exact ⟨hk, hr, fun m n h => hn n h.2⟩

/-- What a node that lists JSON values accepts: what is of the sort of a listed value and resembles
it. -/
theorem accepts_iff_resembles (hl : node.listed? = some values) (ha : ∀ a ∈ values, a.IsJson)
    (hv : v.IsJson) : registry.Accepts node (some v) ↔ (∀ mark, v ≠ .float (.nan mark)) ∧
      ∃ allowed ∈ values, allowed.kind = v.kind ∧ allowed.Resembles v := by
  rw [accepts_iff_isMatch hl]
  constructor
  · rintro ⟨allowed, hm, h⟩
    obtain ⟨hn, hr⟩ := (isMatch_iff_resembles (ha allowed hm) hv).mp h
    exact ⟨hn, allowed, hm, hr⟩
  · rintro ⟨hn, allowed, hm, hr⟩
    exact ⟨allowed, hm, (isMatch_iff_resembles (ha allowed hm) hv).mpr ⟨hn, hr⟩⟩

/-- A node that lists JSON values accepts what coincides with a listed one, unless a listed value of
its sort equals it although there are atoms of different sorts inside. -/
theorem accepts_iff_coincides (hl : node.listed? = some values) (ha : ∀ a ∈ values, a.IsJson)
    (hv : v.IsJson) (hc : ∀ allowed ∈ values, allowed.kind = v.kind → allowed.Resembles v →
      ¬ allowed.Confuses v) :
    registry.Accepts node (some v) ↔ (∀ mark, v ≠ .float (.nan mark)) ∧
      ∃ allowed ∈ values, allowed.Coincides v := by
  rw [accepts_iff_resembles hl ha hv]
  refine and_congr_right fun _ => exists_congr fun allowed => and_congr_right fun hm => ?_
  constructor
  · rintro ⟨hk, hr⟩
    exact hr.coincides (hc allowed hm hk hr)
  · exact fun h => ⟨h.kind_eq, h.resembles⟩

/-- A list of two numbers beside a truth value. -/
def partsValue : Value :=
  .map [("parts", .list [.int 2, .float (.finite false 3 0)]), ("exact", .bool true)]

/-- The same with the keys in the other order. -/
def swappedValue : Value :=
  .map [("exact", .bool true), ("parts", .list [.int 2, .float (.finite false 3 0)])]

/-- What differs in the order of its keys from a listed value is accepted. -/
theorem accepts_iff_coincides_swapped :
    (Registry.ofEntries [] []).Accepts (.enum [.bool true, partsValue]) (some swappedValue) ∧
    partsValue.Coincides swappedValue ∧
    ((Registry.ofEntries [] []).Accepts (.enum [.bool true, partsValue]) (some swappedValue) ↔
      (∀ mark, swappedValue ≠ .float (.nan mark)) ∧
        ∃ allowed ∈ [.bool true, partsValue], allowed.Coincides swappedValue) := by
  have hparts : (Value.list [.int 2, .float (.finite false 3 0)]).Coincides
      (.list [.int 2, .float (.finite false 3 0)]) :=
    .list rfl (by simpa using ⟨.atom ⟨rfl, by simp⟩, .atom ⟨rfl, by simp⟩⟩)
  have hcoincides : partsValue.Coincides swappedValue := by
    refine .map (by simp) (by simp +decide) ?_
    simp only [List.forall_mem_cons]
    refine ⟨?_, ?_, by simp⟩
    · rintro x ⟨⟩
      exact .atom ⟨rfl, by simp⟩
    · rintro x ⟨⟩
      exact hparts
  have hlist : (Value.list [.int 2, .float (.finite false 3 0)]).IsJson :=
    .list (by simpa using ⟨.int 2, .float _⟩)
  have hjson : partsValue.IsJson ∧ swappedValue.IsJson :=
    ⟨.map (by simp) (by simp +decide [KeysDiffer]) (by simpa using ⟨hlist, .bool true⟩),
      .map (by simp) (by simp +decide [KeysDiffer]) (by simpa using ⟨.bool true, hlist⟩)⟩
  have hiff : (Registry.ofEntries [] []).Accepts (.enum [.bool true, partsValue])
      (some swappedValue) ↔ (∀ mark, swappedValue ≠ .float (.nan mark)) ∧
        ∃ allowed ∈ [.bool true, partsValue], allowed.Coincides swappedValue := by
    refine accepts_iff_coincides rfl ?_ hjson.2 ?_
    · simpa using ⟨.bool true, hjson.1⟩
    · simp only [List.forall_mem_cons]
      exact ⟨by simp +decide, fun _ _ => hcoincides.not_confuses, by simp⟩
  have hnumber : ∀ mark, swappedValue ≠ .float (.nan mark) := fun _ => by simp [swappedValue]
  exact ⟨hiff.mpr ⟨hnumber, partsValue, by simp, hcoincides⟩, hcoincides, hiff⟩

/-- The list of truth is accepted in the place of the list of one: they are equal, and are of one
sort, although their items are not. -/
theorem literal_accepts_truth_for_one :
    (Registry.ofEntries [] []).Accepts (.literal (.list [.int 1])) (some (.list [.bool true])) ∧
    ¬ (Value.list [.int 1]).Coincides (.list [.bool true]) := by
  have hc : (Value.list [.int 1]).Confuses (.list [.bool true]) :=
    .item (e := (.int 1, .bool true)) (by simp) (.atom (by decide) (by decide))
  exact ⟨⟨_, rfl⟩, fun h => h.not_confuses hc⟩

end Validation

end ZodSchemas
