import ZodSchemas.Conversion.Unfolding
import ZodSchemas.Proofs.Conversion.Known

/-!
# Conversion ends

The conversion of a schema that is not inside itself ends. It may be refused,
by a fault that says which value has a wrong sort, but a conversion that goes on
forever comes of a schema inside itself only.
-/

namespace ZodSchemas

/-- The items of a value are there or refused. -/
theorem Value.itemsOf_ne_endless (v : Value) : v.itemsOf ≠ .error .endless := by
  unfold itemsOf
  split <;> simp

/-- The entries of a value are there or refused. -/
theorem Value.entriesOf_ne_endless (v : Value) : v.entriesOf ≠ .error .endless := by
  unfold entriesOf
  split <;> simp

/-- The items of a value, if any, are there or refused. -/
theorem Value.itemsIfAny_ne_endless (v : Option Value) : itemsIfAny v ≠ .error .endless := by
  unfold itemsIfAny
  split
  · split
    · exact itemsOf_ne_endless _
    · simp
  · simp

/-- Values are keys or refused. -/
theorem keysOf_ne_endless (values : List Value) : keysOf values ≠ .error .endless := by
  intro h
  induction values with
  | nil => simp [keysOf] at h
  | cons v rest ih =>
    rw [keysOf] at h
    cases hk : v.toKey? with
    | none => simp [hk, bind, Except.bind] at h
    | some key =>
      rw [hk] at h
      rcases exceptBind_eq_error.mp h with h | ⟨first, -, h⟩
      · simp at h
      · rcases exceptBind_eq_error.mp h with h | ⟨keys, -, h⟩
        · exact ih h
        · simp at h

namespace Merged

/-- A member is taken along or refused. -/
theorem add_ne_endless (merged : Merged) (member : Value) :
    merged.add member ≠ .error .endless := by
  intro h
  rcases exceptBind_eq_error.mp h with h | ⟨schema, -, h⟩
  · exact Value.entriesOf_ne_endless _ h
  · split at h
    · rcases exceptBind_eq_error.mp h with h | ⟨properties, -, h⟩
      · unfold declaredProperties at h
        dsimp only at h
        split at h <;> simp at h
      · rcases exceptBind_eq_error.mp h with h | ⟨required, -, h⟩
        · exact Value.itemsIfAny_ne_endless _ h
        · simp at h
    · simp at h

/-- Members are taken together or refused. -/
theorem ofMembers_ne_endless (members : List Value) : ofMembers members ≠ .error .endless := by
  have fold : ∀ (members : List Value) (start : Merged),
      members.foldlM add start ≠ .error .endless := by
    intro members
    induction members with
    | nil => intro start h; simp [pure, Except.pure] at h
    | cons m rest ih =>
      intro start h
      rw [List.foldlM_cons] at h
      rcases exceptBind_eq_error.mp h with h | ⟨next, -, h⟩
      · exact add_ne_endless start m h
      · exact ih next h
  exact fold members ⟨[], []⟩

end Merged

namespace Reference

/-- A definition is there, missing or refused. -/
theorem definition?_ne_endless (definitions : Value) (name : Key) :
    definition? definitions name ≠ .error .endless := by
  intro h
  rcases exceptBind_eq_error.mp h with h | ⟨definition, -, h⟩
  · rcases exceptBind_eq_error.mp h with h | ⟨entries, -, h⟩
    · exact Value.entriesOf_ne_endless _ h
    · simp at h
  · simp at h

/-- A reference is resolved or refused. -/
theorem resolve_ne_endless (definitions target : Value) :
    resolve definitions target ≠ .error .endless := by
  intro h
  rcases exceptBind_eq_error.mp h with h | ⟨name, -, h⟩
  · unfold Reference.target at h
    split at h <;> simp at h
  · rcases exceptBind_eq_error.mp h with h | ⟨definition, -, h⟩
    · exact definition?_ne_endless _ _ h
    · simp at h

end Reference

/-- A mapping is inside itself exactly when its entries on their own are. -/
theorem Value.isFinite_map_iff {v : Value} {entries : Entries Value}
    (h : v.entries? = some entries) : (Value.map entries).isFinite = true ↔ v.isFinite = true := by
  have hp : (Value.map entries).parts = v.parts := (parts_of_entries? h).symm
  rw [isFinite_iff, isFinite_iff]
  refine exists_congr fun n => ?_
  cases n <;> simp [fits, hp]

/-- What is found in definitions that are not inside themselves is not inside itself. -/
theorem isFinite_of_definition? {definitions : Value} {name : Key} {schema : Entries Value}
    (hd : definitions.isFinite = true)
    (h : Reference.definition? definitions name = .ok (some schema)) :
    (Value.map schema).isFinite = true := by
  obtain ⟨entries, v, he, hf, hv⟩ := definition?_eq_some.mp h
  obtain ⟨k, -, hm⟩ := Entries.mem_of_find? hf
  have hp : v ∈ definitions.parts := Value.mem_parts_of_entries? he hm
  exact (Value.isFinite_map_iff hv).mpr (Value.isFinite_of_mem_parts hd hp)

namespace Source

variable {source : Source} {convert : Value → Conversion Node}

/-- Properties are converted or refused when their schemas are. -/
theorem properties_ne_endless (hc : ∀ v, (convert v).outcome ≠ .error .endless)
    (required : List Key) (entries : Entries Value) :
    (properties convert required entries).outcome ≠ .error .endless := by
  intro h
  induction entries with
  | nil => simp [properties] at h
  | cons e rest ih =>
    obtain ⟨key, schema⟩ := e
    by_cases hs : schema = .null
    · subst hs
      exact ih h
    · rw [properties_cons hs] at h
      rcases Traced.bind_eq_error.mp h with h | ⟨node, -, h⟩
      · exact hc schema h
      · rcases Traced.bind_eq_error.mp h with h | ⟨nodes, -, h⟩
        · exact ih h
        · simp at h

/-- An object is converted or refused when the schemas of its properties are. -/
theorem object_ne_endless (hc : ∀ v, (convert v).outcome ≠ .error .endless)
    {schemas : Option Value} {names : Except Fault (List Value)} (hn : names ≠ .error .endless) :
    (object convert schemas names).outcome ≠ .error .endless := by
  intro h
  rcases Traced.bind_eq_error.mp h with h | ⟨keys, -, h⟩
  · rcases exceptBind_eq_error.mp h with h | ⟨values, -, h⟩
    · exact hn h
    · exact keysOf_ne_endless _ h
  · rcases Traced.bind_eq_error.mp h with h | ⟨entries, -, h⟩
    · exact Value.entriesOf_ne_endless _ h
    · rcases Traced.bind_eq_error.mp h with h | ⟨nodes, -, h⟩
      · exact properties_ne_endless hc _ _ h
      · simp at h

/-- Options are converted or refused when their schemas are. -/
theorem mapM_ne_endless (hc : ∀ v, (convert v).outcome ≠ .error .endless) (members : List Value) :
    (members.mapM convert).outcome ≠ .error .endless := by
  intro h
  induction members with
  | nil => simp at h
  | cons m rest ih =>
    rw [List.mapM_cons] at h
    rcases Traced.bind_eq_error.mp h with h | ⟨node, -, h⟩
    · exact hc m h
    · rcases Traced.bind_eq_error.mp h with h | ⟨nodes, -, h⟩
      · exact ih h
      · simp at h

/-- A form is converted or refused when the schemas inside are. -/
theorem ofForm_ne_endless (hc : ∀ v, (convert v).outcome ≠ .error .endless) (form : Form) :
    (source.ofForm convert form).outcome ≠ .error .endless := by
  intro h
  cases form with
  | reference target =>
    rcases Traced.bind_eq_error.mp h with h | ⟨⟨name, definition⟩, -, h⟩
    · exact Reference.resolve_ne_endless _ _ h
    · cases definition <;> simp [Traced.bind_eq_error] at h
  | allOf members =>
    rcases Traced.bind_eq_error.mp h with h | ⟨items, -, h⟩
    · exact Value.itemsOf_ne_endless _ h
    · rcases Traced.bind_eq_error.mp h with h | ⟨merged, -, h⟩
      · exact Merged.ofMembers_ne_endless _ h
      · exact object_ne_endless hc (by simp) h
  | anyOf members =>
    rcases Traced.bind_eq_error.mp h with h | ⟨items, -, h⟩
    · exact Value.itemsOf_ne_endless _ h
    · rcases Traced.bind_eq_error.mp h with h | ⟨nodes, -, h⟩
      · exact mapM_ne_endless hc items h
      · simp at h
  | object schemas required => exact object_ne_endless hc (Value.itemsIfAny_ne_endless _) h
  | array items =>
    cases items with
    | none => simp [ofForm] at h
    | some items =>
      rw [ofForm] at h
      split at h
      · rcases Traced.bind_eq_error.mp h with h | ⟨element, -, h⟩
        · exact hc items h
        · simp at h
      · simp at h
  | choice values =>
    rcases Traced.bind_eq_error.mp h with h | ⟨listed, -, h⟩
    · exact Value.itemsOf_ne_endless _ h
    · simp at h
  | string checks => simp [ofForm] at h
  | number => simp [ofForm] at h
  | boolean => simp [ofForm] at h
  | anything => simp [ofForm] at h

/-- What a value that is no mapping is refused for. -/
theorem schemaFault_ne_endless (v : Value) : schemaFault v ≠ .endless := by
  intro h
  rw [schemaFault, Option.getD_eq_iff] at h
  rcases h with h | ⟨-, h⟩
  · obtain ⟨keyword, -, hk⟩ := List.exists_of_findSome?_eq_some h
    split at hk <;> simp at hk
  · simp at h

/-- A schema is converted or refused when the schemas inside are. -/
theorem ofSchema_ne_endless (hc : ∀ v, (convert v).outcome ≠ .error .endless) (v : Value) :
    (source.ofSchema convert v).outcome ≠ .error .endless := by
  intro h
  unfold ofSchema at h
  split at h
  · rcases Traced.bind_eq_error.mp h with h | ⟨node, -, h⟩
    · exact ofForm_ne_endless hc _ h
    · simp at h
  · simp only [Traced.outcome_fail, Except.error.injEq] at h
    exact schemaFault_ne_endless v h

/-- A schema that is not inside itself is converted or refused. -/
theorem convert_ne_endless {v : Value} (hv : v.isFinite = true) :
    (source.convert v).outcome ≠ .error .endless := by
  classical
  have fitting : ∀ n (v : Value), v.fits n = true →
      (source.convert v).outcome ≠ .error .endless := by
    intro n
    induction n with
    | zero =>
      intro v hf
      have hp : v.parts = [] := by simpa [Value.fits] using hf
      rw [convert_eq source (Value.isFinite_iff.mpr ⟨0, hf⟩),
        ofSchema_of_parts_eq_nil (g := fun _ => pure .unknown) source hp]
      exact ofSchema_ne_endless (fun _ => by simp) v
    | succ n ih =>
      intro v hf
      -- Only the conversions of schemas inside matter, and those end.
      let inside (w : Value) : Conversion Node :=
        if w.fits n then source.convert w else pure .unknown
      have hi : ∀ w : Value, w.fits n = true → source.convert w = inside w := fun w hw =>
        (if_pos hw).symm
      rw [convert_eq source (Value.isFinite_iff.mpr ⟨n + 1, hf⟩),
        ofSchema_congr_of_fits source hf hi]
      refine ofSchema_ne_endless (fun w => ?_) v
      by_cases hw : w.fits n = true
      · rw [← hi w hw]
        exact ih w hw
      · simp [inside, hw]
  exact fitting v.depth v hv

end Source

/-- The conversions of definitions end when the definitions are not inside themselves. -/
theorem Converter.body_ne_endless {c : Converter} (hd : c.definitions.isFinite = true) (ref : Ref) :
    c.registry.body ref ≠ .error .endless := by
  intro h
  rcases Traced.bind_eq_error.mp h with h | ⟨definition, hf, h⟩
  · exact Reference.definition?_ne_endless _ _ h
  · cases definition with
    | none => simp at h
    | some schema => exact Source.convert_ne_endless (isFinite_of_definition? hd hf) h

end ZodSchemas
