import Mathlib.Logic.Relation
import ZodSchemas.Conversion.Unfolding
import ZodSchemas.Proofs.Value.Keys

/-!
# Well-formed schemas

What stands under the keywords of a schema, as far as it has a meaning, and
which schemas are inside it. A schema is well formed when every keyword that is
read holds a value of the right sort, in the schema itself and in all schemas
inside it. Other keywords may hold anything.
-/

namespace ZodSchemas

/-- The first keyword of a schema among those that decide before its type does. -/
def decisive (schema : Entries Value) : Option Text :=
  leadingKeywords.find? fun keyword => Entries.has keyword schema

/-- A keyword of a schema holds a list. -/
def Lists (schema : Entries Value) (keyword : Text) (items : List Value) : Prop :=
  ∃ v, Entries.find? keyword schema = some v ∧ v.shape = .list items

/-- The type of a schema decides what it asks for, and has a name. -/
def HasType (schema : Entries Value) (name : Text) : Prop :=
  decisive schema = none ∧ Entries.find? "type" schema = some (.text name)

/-- The names of types that ask for something. -/
def knownTypes : List Text := ["object", "array", "string", "number", "integer", "boolean"]

/-- A schema asks for one of some options. -/
def HasOptions (schema : Entries Value) (options : List Value) : Prop :=
  ∃ keyword : Text, (keyword = "anyOf" ∨ keyword = "oneOf") ∧ decisive schema = some keyword ∧
    Lists schema keyword options

/-- A schema asks for an object with the properties of some members. -/
inductive HasMembers (schema : Entries Value) : List (Entries Value) → Prop where
  /-- A schema of type object is the only member. -/
  | own (typed : HasType schema "object") : HasMembers schema [schema]
  /-- The members of type object among those that are listed. -/
  | allOf {items : List Value} (first : decisive schema = some "allOf")
      (listed : Lists schema "allOf" items) :
      HasMembers schema ((items.filterMap Value.entries?).filter isObject)

/-- The properties that a schema declares. -/
def propertiesOf (schema : Entries Value) : Entries Value :=
  match Entries.find? "properties" schema with
  | some v => v.entries?.getD []
  | none => []

/-- The keywords that list schemas. -/
def memberKeywords : List Text := ["allOf", "anyOf", "oneOf"]

/-- The keywords that schemas stand under. -/
def nestingKeywords : List Text := "properties" :: "items" :: memberKeywords

/-- The keywords that hold lengths. -/
def lengthKeywords : List Text := ["minLength", "maxLength"]

/-- The first schema is right inside the second. -/
inductive Inside : Entries Value → Entries Value → Prop where
  /-- A listed member. -/
  | member {schema sub : Entries Value} {keyword : Text} {items : List Value} {m : Value}
      (known : keyword ∈ memberKeywords) (listed : Lists schema keyword items) (member : m ∈ items)
      (mapping : m.entries? = some sub) : Inside sub schema
  /-- The schema of a property. -/
  | property {schema sub properties : Entries Value} {v : Value} {e : Key × Value}
      (found : Entries.find? "properties" schema = some v) (declared : v.entries? = some properties)
      (member : e ∈ properties) (mapping : e.2.entries? = some sub) : Inside sub schema
  /-- The schema of elements. -/
  | items {schema sub : Entries Value} {v : Value} (found : Entries.find? "items" schema = some v)
      (mapping : v.entries? = some sub) : Inside sub schema

/-- The keywords of a schema hold values of the right sort. -/
structure IsShaped (schema : Entries Value) : Prop where
  /-- A reference is a text. -/
  reference : ∀ v, Entries.find? "$ref" schema = some v → ∃ t, v = .text t
  /-- Members are listed, and each is a mapping. -/
  members : ∀ keyword ∈ memberKeywords, ∀ v, Entries.find? keyword schema = some v →
    ∃ items, v.shape = .list items ∧ ∀ m ∈ items, ∃ sub, m.entries? = some sub
  /-- Properties are a mapping from different texts to mappings or nothing. -/
  properties : ∀ v, Entries.find? "properties" schema = some v → ∃ entries,
    v.entries? = some entries ∧ KeysDiffer (Entries.keys entries) ∧
      ∀ e ∈ entries, (∃ t, e.1 = .text t) ∧ (e.2 = .null ∨ ∃ sub, e.2.entries? = some sub)
  /-- Required names are listed texts. -/
  required : ∀ v, Entries.find? "required" schema = some v →
    ∃ names : List Text, v.shape = .list (names.map .text)
  /-- The schema of elements is a mapping. -/
  items : ∀ v, Entries.find? "items" schema = some v → ∃ sub, v.entries? = some sub
  /-- The values that a text is one of are listed texts. -/
  choice : Entries.find? "type" schema = some (.text "string") →
    ∀ v, Entries.find? "enum" schema = some v →
      ∃ texts : List Text, v.shape = .list (texts.map .text)
  /-- Lengths are integers. -/
  lengths : ∀ keyword ∈ lengthKeywords, ∀ v, Entries.find? keyword schema = some v → ∃ n, v = .int n
  /-- Whether null is accepted is a truth value. -/
  nullable : ∀ v, Entries.find? "nullable" schema = some v → ∃ b, v = .bool b

/-- A property of a schema and of all schemas inside it. -/
def Throughout (p : Entries Value → Prop) (schema : Entries Value) : Prop :=
  ∀ sub, Relation.ReflTransGen Inside sub schema → p sub

/-- A schema is well formed. -/
def IsSchema (schema : Entries Value) : Prop := Throughout IsShaped schema

namespace Throughout

variable {p : Entries Value → Prop} {schema sub : Entries Value}

/-- A property throughout a schema is one of the schema itself. -/
theorem self (h : Throughout p schema) : p schema := h schema .refl

/-- A property throughout a schema is one throughout every schema inside it. -/
theorem inside (h : Throughout p schema) (hs : Relation.TransGen Inside sub schema) :
    Throughout p sub :=
  fun _ hr => h _ (hr.trans hs.to_reflTransGen)

/-- What holds of a schema and throughout the schemas right inside it holds throughout. -/
theorem of_parts (h : p schema) (hi : ∀ sub, Inside sub schema → Throughout p sub) :
    Throughout p schema := by
  intro sub hs
  rcases Relation.ReflTransGen.cases_tail hs with rfl | ⟨part, hs, hp⟩
  · exact h
  · exact hi part hp sub hs

end Throughout

/-- Nothing is inside a schema that no schemas stand under. -/
theorem not_inside {schema sub : Entries Value}
    (h : ∀ keyword ∈ nestingKeywords, Entries.find? keyword schema = none) :
    ¬ Inside sub schema := by
  intro hi
  cases hi with
  | member hk hl _ _ =>
    obtain ⟨v, hv, -⟩ := hl
    simp [h _ (List.mem_cons_of_mem _ (List.mem_cons_of_mem _ hk))] at hv
  | property hv _ _ _ => simp [h "properties" (by simp [nestingKeywords])] at hv
  | items hv _ => simp [h "items" (by simp [nestingKeywords])] at hv

/-- A schema that is right inside another one has shorter walks into it. -/
theorem exists_fits_of_inside {schema sub : Entries Value} {n : Nat}
    (h : Inside sub schema) (hf : (Value.map schema).fits n = true) :
    ∃ k, k < n ∧ (Value.map sub).fits k = true := by
  -- A part has shorter walks than the whole.
  have shorter : ∀ {m : Nat} {v w : Value}, v.fits m = true → w ∈ v.parts →
      ∃ k, k < m ∧ w.fits k = true := by
    intro m v w hv hw
    cases m with
    | zero =>
      have he : v.parts = [] := by simpa [Value.fits] using hv
      simp [he] at hw
    | succ m => exact ⟨m, Nat.lt_succ_self m, Value.fits_succ.mp hv w hw⟩
  have found : ∀ {keyword : Text} {v : Value}, Entries.find? keyword schema = some v →
      v ∈ (Value.map schema).parts := by
    intro keyword v hv
    obtain ⟨k, -, hm⟩ := Entries.mem_of_find? hv
    exact List.mem_map_of_mem hm
  have same_parts : ∀ {m : Nat} {v : Value}, v.entries? = some sub → v.fits m = true →
      (Value.map sub).fits m = true := by
    intro m v hv hm
    have he : (Value.map sub).parts = v.parts := (Value.parts_of_entries? hv).symm
    cases m <;> simpa [Value.fits, he] using hm
  cases h with
  | @member _ _ keyword items m hk hl hm hs =>
    obtain ⟨v, hv, hshape⟩ := hl
    obtain ⟨k, hk, hvk⟩ := shorter hf (found hv)
    obtain ⟨l, hl, hml⟩ := shorter hvk (w := m) (by simpa [Value.parts, hshape] using hm)
    exact ⟨l, by omega, same_parts hs hml⟩
  | @property _ _ properties v e hv hd hm hs =>
    obtain ⟨k, hk, hvk⟩ := shorter hf (found hv)
    obtain ⟨l, hl, hml⟩ := shorter hvk (Value.mem_parts_of_entries? hd hm)
    exact ⟨l, by omega, same_parts hs hml⟩
  | @items _ _ v hv hs =>
    obtain ⟨k, hk, hvk⟩ := shorter hf (found hv)
    exact ⟨k, hk, same_parts hs hvk⟩

/-- A schema that is not inside itself is reached from the schemas inside it. -/
theorem schema_induction {motive : Entries Value → Prop}
    (step : ∀ schema, (Value.map schema).isFinite = true →
      (∀ sub, Relation.TransGen Inside sub schema → motive sub) → motive schema)
    {schema : Entries Value} (h : (Value.map schema).isFinite = true) : motive schema := by
  have fitting : ∀ n (schema : Entries Value), (Value.map schema).fits n = true →
      motive schema := by
    intro n
    induction n using Nat.strongRecOn with
    | ind n ih =>
      intro schema hf
      have smaller : ∀ sub, Relation.TransGen Inside sub schema →
          ∃ k, k < n ∧ (Value.map sub).fits k = true := by
        intro sub hs
        induction hs using Relation.TransGen.head_induction_on with
        | single h => exact exists_fits_of_inside h hf
        | head h _ ih =>
          obtain ⟨k, hk, hfk⟩ := ih
          obtain ⟨l, hl, hfl⟩ := exists_fits_of_inside h hfk
          exact ⟨l, by omega, hfl⟩
      refine step schema (Value.isFinite_iff.mpr ⟨n, hf⟩) fun sub hs => ?_
      obtain ⟨k, hk, hfk⟩ := smaller sub hs
      exact ih k hk sub hfk
  exact fitting _ schema h

/-- A schema inside another one that is not inside itself is not inside itself. -/
theorem isFinite_of_inside {schema sub : Entries Value}
    (h : (Value.map schema).isFinite = true) (hs : Relation.TransGen Inside sub schema) :
    (Value.map sub).isFinite = true := by
  obtain ⟨n, hf⟩ := Value.isFinite_iff.mp h
  have fits : ∃ k, (Value.map sub).fits k = true := by
    induction hs using Relation.TransGen.head_induction_on with
    | single h =>
      obtain ⟨k, -, hk⟩ := exists_fits_of_inside h hf
      exact ⟨k, hk⟩
    | head h _ ih =>
      obtain ⟨k, hk⟩ := ih
      obtain ⟨l, -, hl⟩ := exists_fits_of_inside h hk
      exact ⟨l, hl⟩
  exact Value.isFinite_iff.mpr fits

end ZodSchemas
