import ZodSchemas.Proofs.Dependency.Growth
import ZodSchemas.Proofs.Dependency.Order
import ZodSchemas.Proofs.Value.Overlays

/-!
# Orders that are kept

Where every name of a map stands behind the other names that it depends on, no
visit of a dependency has anything left to insert, so the names are placed as
they come. The order of a map without cycles is such an order: entries that are
put into it are placed in it once more.
-/

namespace ZodSchemas

variable {map : DependencyMap} {order : List Key}

/-- The names of a map stand behind all other names of the map that they depend on. -/
def IsOrdered (map : DependencyMap) : Prop :=
  ∀ name dependencies d, Entries.find? name map = some dependencies → d ∈ dependencies →
    Entries.has d map = true → d.same name = false → StandsBefore (Entries.keys map) d name

/-- No name leads to another one and back. -/
def IsCycleFree (map : DependencyMap) : Prop :=
  ∀ a b, Reaches map a b → Reaches map b a → a.same b = true

/-- The entries of a map in the order of some names. -/
def arranged (order : List Key) (map : DependencyMap) : DependencyMap :=
  order.filterMap fun k => (Entries.find? k map).map fun dependencies => (k, dependencies)

/-- Names that are those of a map are the keys of the map in their order. -/
theorem keys_arranged (h : IsOrderOf order map) : Entries.keys (arranged order map) = order :=
  (Entries.filterMap_spec
    (fun k hk => by rw [← Entries.has, ← h.complete, Key.isAmong_of_mem hk]) h.differ).1

/-- A map in another order lists the same dependencies. -/
theorem find?_arranged (h : IsOrderOf order map) (name : Key) :
    Entries.find? name (arranged order map) = Entries.find? name map := by
  have hfind := (Entries.filterMap_spec (f := fun k => Entries.find? k map)
    (fun k hk => by rw [← Entries.has, ← h.complete, Key.isAmong_of_mem hk]) h.differ).2
  cases hn : Entries.has name map with
  | true =>
    rw [← h.complete] at hn
    obtain ⟨k, hk, hs⟩ := Key.isAmong_iff.mp hn
    rw [← Entries.find?_congr hs, ← Entries.find?_congr hs]
    exact hfind k hk
  | false =>
    have hout : Entries.has name (arranged order map) = false := by
      rw [Entries.has_eq_isAmong, keys_arranged h, h.complete, hn]
    rw [Entries.has, Option.isSome_eq_false_iff, Option.isNone_iff_eq_none] at hn hout
    rw [hn, hout]

/-- Behind a name of an ordered map stands nothing that it depends on. -/
theorem IsOrdered.not_behind (h : IsOrdered map) (hd : KeysDiffer (Entries.keys map))
    {front back : DependencyMap} {name d : Key} {dependencies : List Key}
    (hsplit : map = front ++ (name, dependencies) :: back) (hl : d ∈ dependencies) :
    Entries.find? d back = none := by
  have hkeys : Entries.keys map = Entries.keys front ++ name :: Entries.keys back := by
    rw [hsplit, Entries.keys_append, Entries.keys_cons]
  rw [hkeys] at hd
  rw [← Option.isNone_iff_eq_none, ← Option.isSome_eq_false_iff, ← Entries.has,
    Entries.has_eq_isAmong, ← Bool.not_eq_true]
  intro hb
  have hfind : Entries.find? name map = some dependencies :=
    Entries.find?_of_mem (e := (name, dependencies)) (hkeys ▸ hd) (by simp [hsplit])
  have hhas : Entries.has d map = true := by
    rw [Entries.has_eq_isAmong, hkeys, Key.isAmong_append, Key.isAmong_cons, hb, Bool.or_true,
      Bool.or_true]
  have hself : d.same name = false := by
    rw [← Bool.not_eq_true]
    intro hs
    have hn := KeysDiffer.not_among (List.pairwise_append.mp hd).2.1
    rw [← Key.isAmong_congr hs, hb] at hn
    simp at hn
  have hbefore := h name dependencies d hfind hl hhas hself
  rw [hkeys] at hbefore
  obtain ⟨k, hk, hs⟩ := Key.isAmong_iff.mp (hbefore.isAmong_front hd)
  have hn := hd.not_among_back hk
  rw [Key.isAmong_cons, Key.isAmong_congr hs, hb, Bool.or_true] at hn
  simp at hn

/-- There are no cycles where each name ranks above the other names that it depends on. -/
theorem isCycleFree_of_rank (rank : Key → Nat)
    (hsame : ∀ a b : Key, a.same b = true → rank a = rank b)
    (hbelow : ∀ name dependencies, Entries.find? name map = some dependencies →
      ∀ d ∈ dependencies, d.same name = true ∨ rank d < rank name) : IsCycleFree map := by
  -- What a name leads to is the name itself or ranks below it.
  have below : ∀ a b, Reaches map a b → a.same b = true ∨ rank b < rank a := by
    intro a b h
    induction h with
    | self hs => exact .inl hs
    | @step start next goal dependencies found listed _ ih =>
      rcases hbelow start dependencies found next listed with hs | hlt
      · rcases ih with hg | hg
        · exact .inl (Key.same_trans (Key.same_comm .. ▸ hs) hg)
        · exact .inr (hsame next start hs ▸ hg)
      · rcases ih with hg | hg
        · exact .inr (hsame next goal hg ▸ hlt)
        · exact .inr (Nat.lt_trans hg hlt)
  intro a b hab hba
  rcases below a b hab with hs | hlt
  · exact hs
  · rcases below b a hba with hs | hgt
    · rwa [Key.same_comm]
    · exact absurd hlt (Nat.lt_asymm hgt)

namespace Visits

/-- Names that do not remain are all passed over. -/
theorem of_gone {names : List Key} {remaining : DependencyMap}
    (h : ∀ name ∈ names, Entries.find? name remaining = none) :
    Visits names remaining remaining [] := by
  induction names with
  | nil => exact .nil remaining
  | cons name names ih =>
    obtain ⟨hn, hr⟩ := List.forall_mem_cons.mp h
    exact .skip hn (ih hr)

/-- The names of entries end in their order when no entry lists a name behind it. -/
theorem of_not_behind {remaining : DependencyMap}
    (h : ∀ front name dependencies back, remaining = front ++ (name, dependencies) :: back →
      ∀ d ∈ dependencies, Entries.find? d back = none) :
    Visits (Entries.keys remaining) remaining [] (Entries.keys remaining) := by
  induction remaining with
  | nil => exact .nil []
  | cons e rest ih =>
    obtain ⟨name, dependencies⟩ := e
    have hfound : Entries.find? name ((name, dependencies) :: rest) = some dependencies := by
      rw [Entries.find?, if_pos (Key.same_self name)]
    have herase : Entries.erase name ((name, dependencies) :: rest) = rest := by
      rw [Entries.erase, if_pos (Key.same_self name)]
    -- What the first name depends on is not behind it, so its visit inserts the name alone.
    have hinner : Visits dependencies (Entries.erase name ((name, dependencies) :: rest)) rest [] :=
      herase.symm ▸ of_gone (h [] name dependencies rest rfl)
    refine .visit hfound hinner (ih fun front k listed back hsplit => ?_)
    exact h ((name, dependencies) :: front) k listed back (by rw [hsplit, List.cons_append])

end Visits

/-- The names of an ordered map are placed in the order of the map. -/
theorem sequence_of_isOrdered {pairs : DependencyMap} (h : IsOrdered (Entries.ofPairs pairs)) :
    sequence pairs = Entries.keys (Entries.ofPairs pairs) := by
  have hd := Entries.keysDiffer_ofPairs pairs
  have hkept := Visits.of_not_behind fun _ _ _ _ hsplit _ hl => h.not_behind hd hsplit hl
  exact ((sequence_visits pairs).unique hkept).2

/-- Entries of a map without cycles are ordered when they are put into an order of the map. -/
theorem isOrdered_arranged (h : IsOrderOf order map) (ha : IsCycleFree map) :
    IsOrdered (arranged order map) := by
  intro name dependencies d hf hl hr hs
  rw [Entries.has, find?_arranged h, ← Entries.has] at hr
  rw [find?_arranged h] at hf
  rw [keys_arranged h]
  refine (h.ordered name dependencies d hf hl hr).resolve_right fun hback => ?_
  have hforth : Reaches map name d := .step hf hl (.self (Key.same_self d))
  rw [ha d name hback hforth] at hs
  simp at hs

/-- A map whose names stand behind the other names that they depend on keeps its order. So a map
without cycles that is put into the order that its names are placed in is in that order for good. -/
theorem sequence_keeps_order (pairs : DependencyMap) :
    (IsOrdered (Entries.ofPairs pairs) →
      sequence pairs = Entries.keys (Entries.ofPairs pairs)) ∧
    (IsCycleFree (Entries.ofPairs pairs) →
      sequence (arranged (sequence pairs) (Entries.ofPairs pairs)) = sequence pairs) := by
  refine ⟨sequence_of_isOrdered, fun ha => ?_⟩
  have ho := isOrderOf_sequence pairs
  have hkeys := keys_arranged ho
  have hself := Entries.ofPairs_eq_self (hkeys.symm ▸ ho.differ)
  have hordered := isOrdered_arranged ho ha
  rw [← hself] at hordered
  rw [sequence_of_isOrdered hordered, hself, hkeys]

/-- A name in front of one that it depends on; both depend on themselves, and one on a name that
the map does not have. -/
def looseMap : DependencyMap := [("A", ["A", "B", "X"]), ("B", ["B"])]

/-- The order of the loose map is one that is kept. -/
theorem sequence_keeps_order_looseMap :
    IsCycleFree (Entries.ofPairs looseMap) ∧ sequence looseMap = (["B", "A"] : List Key) ∧
    sequence (arranged (sequence looseMap) (Entries.ofPairs looseMap)) = sequence looseMap ∧
    IsOrdered (Entries.ofPairs looseMap.reverse) ∧
    sequence looseMap.reverse = Entries.keys (Entries.ofPairs looseMap.reverse) := by
  have hfree : IsCycleFree (Entries.ofPairs looseMap) := by
    refine isCycleFree_of_rank (fun k => if k.same "A" then 1 else 0) (fun a b hs => ?_) ?_
    · rw [Key.same_left hs]
    · intro name dependencies hf d hl
      obtain ⟨k, hk, hm⟩ := Entries.mem_of_find? hf
      have listed : ∀ e ∈ Entries.ofPairs looseMap, ∀ d ∈ e.2,
          d.same e.1 = true ∨ (if d.same "A" then 1 else 0) < if e.1.same "A" then 1 else 0 := by
        decide
      rw [← Key.same_right hk, ← Key.same_left hk]
      exact listed (k, dependencies) hm d hl
  have hordered := isOrdered_arranged (isOrderOf_sequence looseMap) hfree
  have hreverse : arranged (sequence looseMap) (Entries.ofPairs looseMap) =
      Entries.ofPairs looseMap.reverse := by decide
  rw [hreverse] at hordered
  exact ⟨hfree, by decide, (sequence_keeps_order looseMap).2 hfree, hordered,
    (sequence_keeps_order looseMap.reverse).1 hordered⟩

end ZodSchemas
