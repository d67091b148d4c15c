import ZodSchemas.Proofs.Validation.Acceptance
import ZodSchemas.Proofs.Validation.Remainder
import ZodSchemas.Proofs.Value.Json

/-!
# Parsing again

What parsing leaves of a value is parsed again. Where that is answered it
succeeds: an option that accepted the value accepts what is left of it, though
another one may now come first. It is not answered only where a message cannot
be written that was not needed the first time, because an option that accepted
the value no longer hides the next one. Without unions there is no such option,
and parsing again leaves everything.
-/

namespace ZodSchemas

open Validation

/-- An item of one of two lists of the same length has a partner in the other. -/
theorem exists_mem_zip {α β : Type} {l : List α} {r : List β} (h : l.length = r.length) {a : α}
    (ha : a ∈ l) : ∃ b, (a, b) ∈ l.zip r := by
  rw [← List.map_fst_zip (le_of_eq h)] at ha
  obtain ⟨p, hp, rfl⟩ := List.mem_map.mp ha
  exact ⟨p.2, hp⟩

/-- The items of a JSON value are JSON values. -/
theorem Value.IsJson.of_listItems? {v w : Value} {items : List Value} (h : v.IsJson)
    (hv : listItems? v = some items) (hw : w ∈ items) : w.IsJson := by
  cases h with
  | list values =>
    obtain rfl := Option.some.inj hv
    exact values w hw
  | _ => simp [listItems?, shape] at hv

/-- The keys that an object declares differ. -/
def Node.HasDifferentKeys (node : Node) : Prop :=
  ∀ nodes required, node = .object nodes required → KeysDiffer (Entries.keys nodes)

/-- A node that is not a union. -/
def Node.IsNoUnion (node : Node) : Prop := ∀ options, node ≠ .union options

namespace Entries

variable {α β : Type} {entries : Entries α} (g : Key × α → Option β)

/-- Nothing is left under a key that none of the entries has. -/
theorem find?_filterMap_eq_none {key : Key} (h : ∀ e ∈ entries, e.1.same key = false) :
    find? key (entries.filterMap fun e => (g e).map fun b => (e.1, b)) = none := by
  induction entries with
  | nil => rfl
  | cons first rest ih =>
    obtain ⟨hfirst, hrest⟩ := List.forall_mem_cons.mp h
    cases hg : g first with
    | none => simpa [hg] using ih hrest
    | some b => simpa [hg, find?, hfirst] using ih hrest

/-- What is left under the key of an entry is what is left of that entry. -/
theorem find?_filterMap (hd : KeysDiffer (keys entries)) {e : Key × α} (he : e ∈ entries) :
    find? e.1 (entries.filterMap fun e => (g e).map fun b => (e.1, b)) = g e := by
  induction entries with
  | nil => simp at he
  | cons first rest ih =>
    obtain ⟨hfirst, hrest⟩ := List.pairwise_cons.mp hd
    rcases List.mem_cons.mp he with rfl | he
    · have hnone : find? e.1 _ = none := find?_filterMap_eq_none g fun f hf => by
        rw [Key.same_comm]
        exact hfirst f.1 (List.mem_map_of_mem hf)
      cases hg : g e with
      | none => simpa [hg] using hnone
      | some b => simp [hg, find?]
    · have hother : first.1.same e.1 = false := hfirst e.1 (List.mem_map_of_mem he)
      cases hg : g first with
      | none => simpa [hg] using ih hrest he
      | some b => simpa [hg, find?, hother] using ih hrest he

end Entries

namespace Value

variable {left v : Value}

/-- What is left of a value that is not inside itself is not inside itself either. -/
theorem Restricts.isFinite (h : left.Restricts v) (hv : v.isFinite = true) :
    left.isFinite = true := by
  induction h with
  | refl v => exact hv
  | @list left items v listed length _ ih =>
    refine fits_succ.mpr fun w hw => ?_
    obtain ⟨u, hu⟩ := exists_mem_zip length hw
    have hitem := mem_parts_of_listItems? listed (List.of_mem_zip hu).2
    exact fits_mono (ih _ hu (isFinite_of_mem_parts hv hitem)) (depth_le_depthOfItems hw)
  | @map left entries v mapping kept _ ih =>
    refine fits_succ.mpr fun w hw => ?_
    obtain ⟨e, he, rfl⟩ := List.mem_map.mp hw
    obtain ⟨u, hu⟩ := Entries.exists_find? (kept e he)
    have hf := ih e he u hu (isFinite_of_mem_parts hv (mem_parts_of_find? mapping hu))
    exact fits_mono hf (depth_le_depthOfEntries he)

/-- What is left of a JSON value that can be written can be written. -/
theorem Restricts.isWritable (h : left.Restricts v) (hj : v.IsJson) (hv : v.IsWritable) :
    left.IsWritable := by
  induction h with
  | refl v => exact hv
  | @list left items v listed length _ ih =>
    refine isWritable_list fun w hw => ?_
    obtain ⟨u, hu⟩ := exists_mem_zip length hw
    have hm := (List.of_mem_zip hu).2
    exact ih _ hu (hj.of_listItems? listed hm) (hv.of_mem_parts (mem_parts_of_listItems? listed hm))
  | @map left entries v mapping kept _ ih =>
    refine isWritable_map (fun e he => ?_) fun e he => ?_
    · obtain ⟨u, hu⟩ := Entries.exists_find? (kept e he)
      exact hj.exists_text mapping hu
    · obtain ⟨u, hu⟩ := Entries.exists_find? (kept e he)
      exact ih e he u hu (hj.of_find? mapping hu) (hv.of_mem_parts (mem_parts_of_find? mapping hu))

end Value

namespace Verdict

/-- A mapping is accepted when all its properties are. -/
theorem ofProperties_accept (nodes : Entries Node) (data : Key × Node → Option Value) :
    ofProperties nodes (fun e => .accept (data e)) =
      .accept (some (.map (nodes.filterMap fun e => (data e).map fun v => (e.1, v)))) := by
  simp [ofProperties, accept, List.flatMap_eq_nil_iff]

/-- A list is accepted when all its items are. -/
theorem ofElements_accept (items : List Value) :
    ofElements items (fun p => .accept (some p.1)) = .accept (some (.list items)) := by
  simp [ofElements, accept, List.flatMap_eq_nil_iff]

end Verdict

namespace Validation

variable {registry : Registry} {node : Node} {value : Option Value} {path : Path}
  {first second : Verdict}

/-- An item of what is left of a list is what is left of the item at its index. -/
theorem exists_of_mem_left {element : Node} {items : List Value}
    {verdicts : Value × Nat → Verdict}
    (h : ∀ p ∈ items.zipIdx, Derives registry element (some p.1) (path ++ [.index p.2])
      (verdicts p)) {q : Value × Nat}
    (hq : q ∈ (items.zipIdx.filterMap fun p => (verdicts p).data).zipIdx) :
    ∃ p ∈ items.zipIdx, p.2 = q.2 ∧ (verdicts p).data = some q.1 := by
  obtain ⟨hl, heach⟩ := List.forall₂_iff_get.mp (leaves_ofElements h)
  obtain ⟨hi, hget⟩ := List.getElem?_eq_some_iff.mp (List.mem_zipIdx_iff_getElem?.mp hq)
  have hd := heach q.2 (hl ▸ hi) hi
  refine ⟨_, List.getElem_mem (hl ▸ hi), by simp, ?_⟩
  rw [← hget]
  exact hd

/-- What a verdict without issues leaves is judged without issues. -/
theorem Derives.valid_again (h : Derives registry node value path first)
    (hk : registry.Everywhere Node.HasDifferentKeys node) (hi : first.issues = [])
    (hs : Derives registry node first.data path second) : second.issues = [] := by
  induction h generalizing second with
  | unknown =>
    rw [derives_unknown.mp hs]
    rfl
  | lazy found _ ih =>
    obtain ⟨body, again, judged⟩ := derives_lazy.mp hs
    obtain rfl := Except.ok.inj (found.symm.trans again)
    exact ih (hk.below (.body found)) hi judged
  | absent =>
    rw [derives_optional_none.mp hs]
    rfl
  | required _ => simp [Verdict.reject] at hi
  | leaf simple ruled =>
    rw [(isAbout_of_isLeaf simple ruled).data, derives_leaf simple, ruled] at hs
    obtain rfl := Except.ok.inj hs
    exact hi
  | optional judged ih =>
    obtain ⟨w, hw⟩ := Option.isSome_iff_exists.mp judged.data_isSome
    rw [hw] at hs ih
    exact ih (hk.below (.part .optional)) hi (derives_optional.mp hs)
  | null =>
    rw [derives_null.mp hs]
    rfl
  | nullable _ judged ih =>
    obtain ⟨w, hw⟩ := Option.isSome_iff_exists.mp judged.data_isSome
    rw [hw] at hs ih
    by_cases hn : w = .null
    · subst hn
      rw [derives_null.mp hs]
      rfl
    · exact ih (hk.below (.part .nullable)) hi ((derives_nullable hn).mp hs)
  | @option options front back option v path first verdicts split _ _ chosen valid _ ih =>
    obtain ⟨w, hw⟩ := Option.isSome_iff_exists.mp chosen.data_isSome
    rw [hw] at hs ih
    -- If all options had issues with what is left, the one that left it would have some.
    rcases cases_of_union hs with ⟨hvalid, -⟩ | ⟨-, hfaulty⟩
    · exact hvalid
    · have hm : option ∈ options := by simp [split]
      obtain ⟨faulty, judged, hissues⟩ := hfaulty option hm
      exact absurd (ih (hk.below (.part (.option hm))) valid judged) hissues
  | noOption _ _ _ => simp [Verdict.reject] at hi
  | @object nodes required u entries path verdicts mapping judged ih =>
    obtain ⟨others, rfl, judgedAgain⟩ := (derives_object rfl).mp hs
    refine List.flatMap_eq_nil_iff.mpr fun e he => ?_
    have again := judgedAgain e he
    have hkeys := hk.self nodes required rfl
    rw [Entries.find?_filterMap (fun e => (verdicts e).data) hkeys he] at again
    exact ih e he (hk.below (.part (.property he))) (List.flatMap_eq_nil_iff.mp hi e he) again
  | noMapping _ => simp [Verdict.reject] at hi
  | @array element u items path verdicts listed judged ih =>
    obtain ⟨others, rfl, judgedAgain⟩ := (derives_array rfl).mp hs
    refine List.flatMap_eq_nil_iff.mpr fun q hq => ?_
    obtain ⟨p, hp, hindex, hdata⟩ := exists_of_mem_left judged hq
    have again := judgedAgain q hq
    rw [← hindex, ← hdata] at again
    exact ih p hp (hk.below (.part .element)) (List.flatMap_eq_nil_iff.mp hi p hp) again
  | noList _ => simp [Verdict.reject] at hi

/-- Where there are no unions, what a verdict without issues leaves is left again. -/
theorem Derives.same_again (h : Derives registry node value path first)
    (hk : registry.Everywhere Node.HasDifferentKeys node)
    (hu : registry.Everywhere Node.IsNoUnion node) (hi : first.issues = []) :
    Derives registry node first.data path (.accept first.data) := by
  induction h with
  | unknown => exact .unknown
  | lazy found _ ih => exact .lazy found (ih (hk.below (.body found)) (hu.below (.body found)) hi)
  | absent => exact .absent
  | required _ => simp [Verdict.reject] at hi
  | @leaf node v path first simple ruled =>
    have hd := (isAbout_of_isLeaf simple ruled).data
    obtain ⟨data, issues⟩ := first
    obtain rfl : data = some v := hd
    obtain rfl : issues = [] := hi
    exact .leaf simple ruled
  | optional judged ih =>
    obtain ⟨w, hw⟩ := Option.isSome_iff_exists.mp judged.data_isSome
    have again := ih (hk.below (.part .optional)) (hu.below (.part .optional)) hi
    rw [hw] at again ⊢
    exact .optional again
  | null => exact .null
  | nullable _ judged ih =>
    obtain ⟨w, hw⟩ := Option.isSome_iff_exists.mp judged.data_isSome
    have again := ih (hk.below (.part .nullable)) (hu.below (.part .nullable)) hi
    rw [hw] at again ⊢
    by_cases hn : w = .null
    · subst hn
      exact .null
    · exact .nullable hn again
  | option => exact absurd rfl (hu.self _)
  | noOption => exact absurd rfl (hu.self _)
  | @object nodes required u entries path verdicts mapping judged ih =>
    refine (derives_object rfl).mpr ⟨fun e => .accept (verdicts e).data,
      (Verdict.ofProperties_accept nodes _).symm, fun e he => ?_⟩
    rw [Entries.find?_filterMap (fun e => (verdicts e).data) (hk.self nodes required rfl) he]
    exact ih e he (hk.below (.part (.property he))) (hu.below (.part (.property he)))
      (List.flatMap_eq_nil_iff.mp hi e he)
  | noMapping _ => simp [Verdict.reject] at hi
  | @array element u items path verdicts listed judged ih =>
    refine (derives_array rfl).mpr ⟨fun q => .accept (some q.1),
      (Verdict.ofElements_accept _).symm, fun q hq => ?_⟩
    obtain ⟨p, hp, hindex, hdata⟩ := exists_of_mem_left judged hq
    have again := ih p hp (hk.below (.part .element)) (hu.below (.part .element))
      (List.flatMap_eq_nil_iff.mp hi p hp)
    rwa [hindex, hdata] at again
  | noList _ => simp [Verdict.reject] at hi

end Validation

/-- What parsing leaves of a JSON value is accepted again, wherever that is answered. It is answered
when all lengths, all listed values and all of the value can be written. Without unions it always
is, and the same data is left. -/
theorem parse_again {registry : Registry} {node : Node} {v : Value} {data : Option Value}
    (hc : registry.IsClosed) (hk : registry.Everywhere Node.HasDifferentKeys node) (hj : v.IsJson)
    (h : (parse registry node (some v)).outcome = .ok (.ok data)) :
    (registry.Answers node data → registry.Accepts node data) ∧
    (registry.IsAcyclic → registry.Everywhere registry.IsConcrete node → v.IsWritable →
      registry.Answers node data) ∧
    (registry.Everywhere Node.IsNoUnion node →
      (parse registry node data).outcome = .ok (.ok data)) := by
  have hderived := derives_of_validateAt (parse_eq_data.mp h)
  obtain ⟨left, hleft, htrims⟩ := hderived.trims rfl rfl
  obtain rfl : data = some left := hleft
  have hrestricts : left.Restricts v := htrims.restricts
  have hfinite : ∀ w ∈ some left, w.isFinite = true := by
    rintro w ⟨⟩
    exact hrestricts.isFinite hj.isFinite
  refine ⟨fun ha => ?_, fun ha hn hw => ?_, fun hu => ?_⟩
  · obtain ⟨second, hs⟩ := (answers_iff_derives hc hfinite).mp ha
    exact (accepts_iff_derives hc hfinite).mpr ⟨second, hs, hderived.valid_again hk rfl hs⟩
  · refine answers_of_everywhere ha hc hfinite hn ?_
    rintro w ⟨⟩
    exact hrestricts.isWritable hj hw
  · exact parse_eq_data.mpr (validateAt_of_derives hc (hderived.same_again hk hu rfl) hfinite)

section Chain

/-- A link with a name, and perhaps a further link. -/
def chainNode : Node :=
  .object [("name", .string []), ("next", .optional (.lazy ⟨"Chain", 0⟩))] ["name"]

/-- Chains of links. -/
def chainRegistry : Registry := .ofEntries [] [("Chain", chainNode)]

/-- Two links, the second of which says more than is declared. -/
def chainValue : Value :=
  .map [("next", .map [("name", "b"), ("rank", .int 2)]), ("name", "a")]

/-- What is left of the two links. -/
def chainLeft : Value :=
  .map [("name", "a"), ("next", .map [("name", "b")])]

/-- The nodes that are met from a link. -/
theorem everywhere_chain : chainRegistry.Everywhere
    (fun inner => inner = chainNode ∨ inner = .string [] ∨
      inner = .optional (.lazy ⟨"Chain", 0⟩) ∨ inner = .lazy ⟨"Chain", 0⟩)
    (.lazy ⟨"Chain", 0⟩) := by
  refine Registry.everywhere_of_below (fun inner outer hi ho => ?_) (by simp)
  rcases ho with rfl | rfl | rfl | rfl
  · cases hi with
    | part hp =>
      cases hp with
      | property member =>
        simp only [List.mem_cons, Prod.mk.injEq, List.not_mem_nil, or_false] at member
        rcases member with ⟨-, rfl⟩ | ⟨-, rfl⟩
        · exact .inr (.inl rfl)
        · exact .inr (.inr (.inl rfl))
  · cases hi with
    | part hp => cases hp
  · cases hi with
    | part hp =>
      cases hp with
      | optional => simp
  · cases hi with
    | part hp => cases hp
    | body found =>
      obtain rfl := Except.ok.inj found
      exact .inl rfl

/-- The reference to a link is guarded by the object it stands in. -/
theorem isAcyclic_chain : chainRegistry.IsAcyclic := by
  refine Registry.isAcyclic_of_bodies fun ref body hb => ?_
  obtain rfl | rfl : body = chainNode ∨ body = .unknown := by
    simp only [chainRegistry, Registry.ofEntries, Registry.bodyByName, Entries.find?,
      List.lookup_nil] at hb
    cases hs : Key.same "Chain" ref.name with
    | true => exact .inl (by simpa [hs, chainNode] using hb.symm)
    | false => exact .inr (by simpa [hs] using hb.symm)
  · rfl
  · rfl

/-- Parsing what is left of the two links leaves it again. -/
theorem parse_again_chain :
    (parse chainRegistry (.lazy ⟨"Chain", 0⟩) (some chainValue)).outcome =
      .ok (.ok (some chainLeft)) ∧
    chainRegistry.Accepts (.lazy ⟨"Chain", 0⟩) (some chainLeft) ∧
    (parse chainRegistry (.lazy ⟨"Chain", 0⟩) (some chainLeft)).outcome =
      .ok (.ok (some chainLeft)) := by
  have hc : chainRegistry.IsClosed := Registry.ofEntries_isClosed [] _
  have hk : chainRegistry.Everywhere Node.HasDifferentKeys (.lazy ⟨"Chain", 0⟩) := by
    intro inner hi
    rcases everywhere_chain inner hi with rfl | rfl | rfl | rfl
    · rintro nodes required ⟨⟩
      simp +decide [KeysDiffer]
    all_goals rintro nodes required ⟨⟩
  have hu : chainRegistry.Everywhere Node.IsNoUnion (.lazy ⟨"Chain", 0⟩) := by
    intro inner hi
    rcases everywhere_chain inner hi with rfl | rfl | rfl | rfl
    all_goals rintro options ⟨⟩
  have hn : chainRegistry.Everywhere chainRegistry.IsConcrete (.lazy ⟨"Chain", 0⟩) := by
    intro inner hi
    rcases everywhere_chain inner hi with rfl | rfl | rfl | rfl
    all_goals constructor <;> simp [chainNode]
    exact ⟨chainNode, rfl⟩
  have hj : chainValue.IsJson := by
    refine .map (by simp) (by simp +decide [KeysDiffer]) ?_
    simp only [List.forall_mem_cons]
    refine ⟨.map (by simp) (by simp +decide [KeysDiffer]) ?_, .text _, by simp⟩
    simp only [List.forall_mem_cons]
    exact ⟨.text _, .int _, by simp⟩
  have hw : chainValue.IsWritable := by
    refine Value.isWritable_map (by simp) ?_
    simp only [List.forall_mem_cons]
    refine ⟨Value.isWritable_map (by simp) ?_, Value.isWritable_atom ⟨_, rfl⟩, by simp⟩
    simp only [List.forall_mem_cons]
    exact ⟨Value.isWritable_atom ⟨_, rfl⟩, Value.isWritable_atom ⟨_, rfl⟩, by simp⟩
  have hp : (parse chainRegistry (.lazy ⟨"Chain", 0⟩) (some chainValue)).outcome =
      .ok (.ok (some chainLeft)) := rfl
  obtain ⟨right, answered, same⟩ := parse_again hc hk hj hp
  exact ⟨hp, right (answered isAcyclic_chain hn hw), same hu⟩

end Chain

/-- Objects whose property has a number, or a text that is long, besides another number; or whose
property has any text. -/
def maskedNode (n : Nat) : Node :=
  .union [
    .object [("a", .union [.object [("c", .number)] ["c"],
      .object [("b", .string [⟨.min, .int n⟩])] ["b"]]), ("q", .number)] ["a", "q"],
    .object [("a", .object [("b", .string [])] ["b"])] ["a"]]

/-- A short text beside a number. -/
def maskedValue : Value := .map [("a", .map [("b", "x"), ("c", .int 1)])]

/-- The short text. -/
def maskedLeft : Value := .map [("a", .map [("b", "x")])]

/-- What is left of an accepted value may get no answer. -/
theorem parse_again_unanswered :
    (Registry.ofEntries [] []).IsAcyclic ∧ maskedValue.IsJson ∧
    (parse (.ofEntries [] []) (maskedNode greatNumber) (some maskedValue)).outcome =
      .ok (.ok (some maskedLeft)) ∧
    (parse (.ofEntries [] []) (maskedNode greatNumber) (some maskedLeft)).outcome =
      .error .tooManyDigits := by
  have hc : (Registry.ofEntries [] []).IsClosed := Registry.ofEntries_isClosed [] []
  have hj : maskedValue.IsJson := by
    refine .map (by simp) (by simp +decide [KeysDiffer]) ?_
    simp only [List.forall_mem_cons]
    refine ⟨.map (by simp) (by simp +decide [KeysDiffer]) ?_, by simp⟩
    simp only [List.forall_mem_cons]
    exact ⟨.text _, .int _, by simp⟩
  have first : ∀ n, (parse (.ofEntries [] []) (maskedNode n) (some maskedValue)).outcome =
      .ok (.ok (some maskedLeft)) := fun n => rfl
  have judging (node : Node) {v : Value} (hv : v.isFinite = true) (path : Path) :
      validateAt (.ofEntries [] []) node (some v) path = _ :=
    validateAt_eq Registry.isAcyclic_ofEntries_nil hc node (by rintro w ⟨⟩; exact hv) path
  have second : ∀ n : Nat, Numeral.integer? n = none → 1 < n →
      (parse (.ofEntries [] []) (maskedNode n) (some maskedLeft)).outcome =
        .error .tooManyDigits := by
    intro n hn hl
    refine Traced.bind_eq_error.mpr (.inl ?_)
    rw [validate, judging _ rfl]
    -- The first option: its property, of which the number is lacking now.
    refine Traced.bind_eq_error.mpr (.inl ?_)
    rw [judging _ rfl]
    refine Traced.bind_eq_error.mpr (.inl (Traced.bind_eq_error.mpr (.inl ?_)))
    change (validateAt _ _ (some (.map [("b", "x")])) _).outcome = _
    rw [judging _ rfl]
    refine Traced.bind_eq_error.mpr (.inr ⟨_, rfl, ?_⟩)
    -- So the text is asked for, which is too short.
    refine Traced.bind_eq_error.mpr (.inl ?_)
    rw [judging _ rfl]
    refine Traced.bind_eq_error.mpr (.inl (Traced.bind_eq_error.mpr (.inl ?_)))
    change (validateAt _ _ (some "x") _).outcome = _
    rw [judging _ rfl]
    refine Traced.bind_eq_error.mpr (.inl ?_)
    exact exceptBind_eq_error.mpr (.inl (checkIssues_unwritable hn hl))
  exact ⟨Registry.isAcyclic_ofEntries_nil, hj, first greatNumber,
    second greatNumber integer?_greatNumber one_lt_greatNumber⟩

end ZodSchemas
