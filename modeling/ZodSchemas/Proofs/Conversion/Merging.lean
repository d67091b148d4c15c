import ZodSchemas.Proofs.Conversion.Ending
import ZodSchemas.Proofs.Schema.Meaning

/-!
# Members taken together

Taking members together merges the properties that those of type object declare
and puts their required names one after another. What the merge has under a key
is what the last member declares that declares the key.
-/

namespace ZodSchemas

/-- What has the shape of a text is the text. -/
theorem Value.eq_text_of_shape {v : Value} {t : Text} (h : v.shape = .atom (.text t)) :
    v = .text t := by
  cases v with
  | atom key => simpa [shape] using h
  | knot ties n =>
    rw [shape] at h
    split at h
    · next loop _ => cases loop <;> simp [shapeOf] at h
    · simp at h
  | _ => simp [shape] at h

/-- A value equals a text when it is that text. -/
theorem Value.equals_text {v : Value} {t : Text} : v.equals (.text t) = true ↔ v = .text t := by
  constructor
  · intro h
    have hs : v.same (.text t) = true := by
      unfold equals at h
      split at h
      · simp at h
      · exact h
    rw [same] at hs
    split at hs
    · next other hshape =>
      obtain rfl := Key.eq_text_of_same hs
      exact eq_text_of_shape hshape
    · simp at hs
  · rintro rfl
    simp [equals, same, shape]

/-- A text matches a value when that is the text. -/
theorem Value.isMatch_text {v : Value} {t : Text} :
    (Value.text t).isMatch v = true ↔ v = .text t := by
  constructor
  · intro h
    obtain ⟨hk, he⟩ := (Bool.and_eq_true _ _).mp h
    have hv : ∃ s, v = .text s := by
      have hk : v.kind = .text := (eq_of_beq hk).symm
      unfold kind at hk
      split at hk
      · next key hshape =>
        cases key with
        | text s => exact ⟨s, eq_text_of_shape hshape⟩
        | _ => simp [kindOf] at hk
      all_goals simp at hk
    obtain ⟨s, rfl⟩ := hv
    simpa [equals, same, shape, eq_comm] using he
  · rintro rfl
    simp [isMatch, equals, same, shape]

/-- The values that a schema lists as required. -/
def requiredOf (schema : Entries Value) : List Value :=
  match Entries.find? "required" schema with
  | some v => v.items?.getD []
  | none => []

/-- The type of a schema is compared as a text. -/
theorem type_equals {schema : Entries Value} {name : Text} :
    ((Entries.find? "type" schema).getD .null).equals name = true ↔
      Entries.find? "type" schema = some (.text name) := by
  rw [Value.equals_text]
  cases Entries.find? "type" schema <;> simp

/-- The items of a list are there. -/
theorem itemsOf_of_shape {v : Value} {items : List Value} (h : v.shape = .list items) :
    v.itemsOf = .ok items := by
  simp [Value.itemsOf, Value.items?, h]

/-- The items of a list are there, also when there are none. -/
theorem itemsIfAny_of_shape {v : Value} {items : List Value} (h : v.shape = .list items) :
    Value.itemsIfAny (some v) = .ok items := by
  rw [Value.itemsIfAny, itemsOf_of_shape h]
  split
  · rfl
  · next ht =>
    have he : items = [] := by simpa [Value.isTruthy, h] using ht
    rw [he]

/-- The entries of a mapping are there, also when there are none. -/
theorem orEmpty_of_entries? {v : Value} {entries : Entries Value} (h : v.entries? = some entries) :
    (Value.orEmpty (some v)).entries? = some entries := by
  rw [Value.orEmpty]
  split
  · exact h
  · next ht =>
    have he : entries = [] := by simpa [Value.isTruthy, Value.shape_of_entries? h] using ht
    rw [he]
    rfl

/-- Texts are keys. -/
theorem keysOf_texts (names : List Text) :
    keysOf (names.map .text) = .ok (names.map .text) := by
  induction names with
  | nil => rfl
  | cons name rest ih =>
    rw [List.map_cons, keysOf, ih]
    rfl

section Shaped

variable {schema : Entries Value}

/-- A well-formed schema has different texts as the keys of its properties, and mappings or
nothing under them. -/
theorem IsShaped.propertiesOf_spec (h : IsShaped schema) :
    KeysDiffer (Entries.keys (propertiesOf schema)) ∧ ∀ e ∈ propertiesOf schema,
      (∃ t, e.1 = .text t) ∧ (e.2 = .null ∨ ∃ sub, e.2.entries? = some sub) := by
  unfold propertiesOf
  split
  · next v hv =>
    obtain ⟨entries, he, hd, hp⟩ := h.properties v hv
    rw [he]
    exact ⟨hd, hp⟩
  · exact ⟨List.Pairwise.nil, by simp⟩

/-- The properties of a well-formed schema can be read. -/
theorem IsShaped.entries_of_properties (h : IsShaped schema) :
    (Value.orEmpty (Entries.find? "properties" schema)).entries? = some (propertiesOf schema) := by
  unfold propertiesOf
  cases hv : Entries.find? "properties" schema with
  | none => rfl
  | some v =>
    obtain ⟨entries, he, -⟩ := h.properties v hv
    rw [orEmpty_of_entries? he]
    simp [he]

/-- The required names of a well-formed schema are texts, and can be read. -/
theorem IsShaped.required_spec (h : IsShaped schema) :
    ∃ names : List Text, requiredOf schema = names.map .text ∧
      Value.itemsIfAny (Entries.find? "required" schema) = .ok (names.map .text) ∧
      ∀ key : Key, key ∈ names.map .text ↔ Requires [schema] key := by
  unfold requiredOf
  cases hv : Entries.find? "required" schema with
  | none =>
    refine ⟨[], rfl, rfl, fun key => ?_⟩
    simp [Requires, Lists, hv]
  | some v =>
    obtain ⟨names, hn⟩ := h.required v hv
    refine ⟨names, by simp [Value.items?, hn], itemsIfAny_of_shape hn, fun key => ?_⟩
    constructor
    · intro hk
      obtain ⟨name, hm, rfl⟩ := List.mem_map.mp hk
      exact ⟨schema, by simp, names, ⟨v, hv, hn⟩, name, hm, rfl⟩
    · rintro ⟨m, hm, others, ⟨w, hw, ho⟩, name, hname, rfl⟩
      obtain rfl : m = schema := by simpa using hm
      obtain rfl : v = w := by simpa [hv] using hw
      have he : others = names := by
        rw [ho, Shape.list.injEq] at hn
        exact List.map_injective_iff.mpr (fun a b hab => by simpa using hab) hn
      rw [← he]
      exact List.mem_map_of_mem hname

end Shaped

namespace Merged

/-- The properties of some members, the later ones over the earlier ones. -/
def propertiesOfAll (members : List (Entries Value)) : Entries Value :=
  members.foldl (fun entries m => Entries.merge entries (propertiesOf m)) []

/-- One more member is merged over the others. -/
theorem propertiesOfAll_append (members : List (Entries Value)) (m : Entries Value) :
    propertiesOfAll (members ++ [m]) =
      Entries.merge (propertiesOfAll members) (propertiesOf m) := by
  simp [propertiesOfAll]

/-- What is found among the properties of well-formed members is what governs the key. -/
theorem find?_propertiesOfAll {members : List (Entries Value)} (h : ∀ m ∈ members, IsShaped m)
    (key : Key) (sub : Value) :
    Entries.find? key (propertiesOfAll members) = some sub ↔ Governs members key sub := by
  induction members using List.reverseRecOn with
  | nil => simp [propertiesOfAll, Governs, Entries.find?]
  | append_singleton members m ih =>
    have hm := (h m (by simp)).propertiesOf_spec.1
    have ih := ih fun m' hm' => h m' (List.mem_append_left _ hm')
    rw [propertiesOfAll_append, Entries.find?_merge key hm, Option.or_eq_some_iff, ih]
    constructor
    · rintro (hf | ⟨hn, front, m', back, rfl, hf, hb⟩)
      · exact ⟨members, m, [], rfl, hf, by simp⟩
      · refine ⟨front, m', back ++ [m], by simp, hf, fun later hl => ?_⟩
        rcases List.mem_append.mp hl with hl | hl
        · exact hb later hl
        · obtain rfl : later = m := by simpa using hl
          rw [Entries.has, hn]
          rfl
    · rintro ⟨front, m', back, he, hf, hb⟩
      rcases List.eq_nil_or_concat back with rfl | ⟨init, last, rfl⟩
      · obtain ⟨-, rfl⟩ : members = front ∧ m = m' := by simpa using he
        exact .inl hf
      · obtain ⟨rfl, rfl⟩ : members = front ++ m' :: init ∧ m = last := by
          have he' : members ++ [m] = (front ++ m' :: init) ++ [last] := by simpa using he
          simpa using List.append_inj' he' rfl
        have hl := hb m (by simp)
        refine .inr ⟨by simpa [Entries.has] using hl, front, m', init, rfl, hf, fun later hm => ?_⟩
        exact hb later (by simp [hm])

/-- The properties of well-formed members are different texts with mappings or nothing. -/
theorem propertiesOfAll_spec {members : List (Entries Value)} (h : ∀ m ∈ members, IsShaped m) :
    KeysDiffer (Entries.keys (propertiesOfAll members)) ∧
      ∀ e ∈ propertiesOfAll members, Governs members e.1 e.2 := by
  have hd : KeysDiffer (Entries.keys (propertiesOfAll members)) := by
    induction members using List.reverseRecOn with
    | nil => exact List.Pairwise.nil
    | append_singleton members m ih =>
      rw [propertiesOfAll_append]
      exact Entries.keysDiffer_merge (ih fun m' hm' => h m' (List.mem_append_left _ hm'))
  refine ⟨hd, fun e he => ?_⟩
  exact (find?_propertiesOfAll h e.1 e.2).mp (Entries.find?_of_mem hd he)

end Merged

/-- The required names of well-formed members are texts, one list after another. -/
theorem exists_names_of_members {members : List (Entries Value)}
    (h : ∀ m ∈ members, IsShaped m) :
    ∃ names : List Text, members.flatMap requiredOf = names.map .text ∧
      ∀ key : Key, key ∈ names.map .text ↔ Requires members key := by
  induction members with
  | nil => exact ⟨[], rfl, by simp [Requires]⟩
  | cons m rest ih =>
    obtain ⟨own, ho, -, hk⟩ := (h m (by simp)).required_spec
    obtain ⟨others, hr, hks⟩ := ih fun m' hm' => h m' (List.mem_cons_of_mem _ hm')
    refine ⟨own ++ others, by rw [List.flatMap_cons, ho, hr, List.map_append], fun key => ?_⟩
    rw [List.map_append, List.mem_append, hk, hks]
    simp [Requires, or_and_right, exists_or]

/-- A well-formed member of type object is taken along, and another one is dropped. -/
theorem Merged.add_eq {merged : Merged} {m : Value} {schema : Entries Value}
    (hm : m.entries? = some schema) (hs : IsShaped schema) :
    merged.add m = .ok (if isObject schema then
      ⟨Entries.merge merged.properties (propertiesOf schema),
        merged.required ++ requiredOf schema⟩ else merged) := by
  obtain ⟨names, hr, hi, -⟩ := hs.required_spec
  have hd : declaredProperties schema = .ok (propertiesOf schema) := by
    simp [declaredProperties, hs.entries_of_properties]
  have he : m.entriesOf = .ok schema := by simp [Value.entriesOf, hm]
  rw [add, he]
  cases ho : isObject schema with
  | false => simp [bind, Except.bind, ho]
  | true => simp [bind, Except.bind, ho, hd, hi, hr]

/-- Well-formed members are taken together to those of type object. -/
theorem Merged.ofMembers_eq {items : List Value}
    (h : ∀ m ∈ items, ∃ schema, m.entries? = some schema ∧ IsShaped schema) :
    Merged.ofMembers items =
      .ok ⟨propertiesOfAll ((items.filterMap Value.entries?).filter isObject),
        ((items.filterMap Value.entries?).filter isObject).flatMap requiredOf⟩ := by
  induction items using List.reverseRecOn with
  | nil => rfl
  | append_singleton items m ih =>
    have ih := ih fun m' hm' => h m' (List.mem_append_left _ hm')
    obtain ⟨schema, hm, hs⟩ := h m (by simp)
    rw [ofMembers] at ih
    rw [ofMembers, List.foldlM_append, ih]
    show [m].foldlM add _ = _
    rw [List.foldlM_cons, add_eq hm hs]
    cases ho : isObject schema with
    | false =>
      simp only [List.filterMap_append, List.filter_append]
      simp [hm, ho, bind, Except.bind, pure, Except.pure]
    | true =>
      simp only [List.filterMap_append, List.filter_append]
      simp [hm, ho, bind, Except.bind, pure, Except.pure, propertiesOfAll_append]

/-- What governs a key is a mapping or nothing, and the key is a text. -/
theorem Governs.spec {members : List (Entries Value)} (h : ∀ m ∈ members, IsShaped m) {key : Key}
    {sub : Value} (hg : Governs members key sub) :
    (∃ t, key = .text t) ∧ (sub = .null ∨ ∃ inner, sub.entries? = some inner) ∧
      ∃ m ∈ members, (key, sub) ∈ propertiesOf m := by
  obtain ⟨front, m, back, rfl, hf, -⟩ := hg
  obtain ⟨k, hk, hm⟩ := Entries.mem_of_find? hf
  obtain ⟨⟨t, ht⟩, hs⟩ := (h m (by simp)).propertiesOf_spec.2 (k, sub) hm
  obtain rfl : k = .text t := ht
  rw [Key.same_comm] at hk
  obtain rfl := Key.eq_text_of_same hk
  exact ⟨⟨t, rfl⟩, hs, m, by simp, hm⟩

end ZodSchemas
