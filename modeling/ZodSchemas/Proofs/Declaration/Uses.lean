import Mathlib.Data.List.Forall2
import ZodSchemas.Declaration.Expression

/-!
# The uses of a term

The term of a node uses a declaration wherever the node has a reference, and
nowhere else: the uses of the term are the references of the node, one by one
and in their order.
-/

namespace ZodSchemas

namespace Context

variable {c : Context}

/-- How a reference is used: by the identifier of its name, deferred unless that is declared. -/
structure Renders (c : Context) (ref : Ref) (u : Use) : Prop where
  /-- The name is the one that is referred to. -/
  name : u.name = ref.name
  /-- The identifier is that of the name. -/
  identifier : c.settings.identifier (.ofKey ref.name) = .ok u.identifier
  /-- The use is deferred unless the name is declared. -/
  isDeferred : u.isDeferred = !c.progress.isDeclared ref.name

/-- What is written is the text of what was to be written. -/
@[simp] theorem written_eq_ok {x : Except Fault Text} {t : Text} :
    (written x).outcome = .ok t ↔ x = .ok t := by
  rw [written, Following.asRendering, Traced.mapError_eq_ok, Traced.outcome_ofExcept]

/-- The identifier of a name is the one that the settings give it. -/
@[simp] theorem identifier_eq_ok {name : Key} {identifier : Text} :
    (c.identifier name).outcome = .ok identifier ↔
      c.settings.identifier (.ofKey name) = .ok identifier := by
  rw [Context.identifier, Following.asRendering, Traced.mapError_eq_ok, Traced.outcome_ofExcept]

/-- A reference has one use. -/
theorem renders_use {ref : Ref} {u : Use} (h : (c.use ref.name).outcome = .ok u) :
    c.Renders ref u := by
  obtain ⟨identifier, hi, h⟩ := Traced.bind_eq_ok.mp h
  obtain rfl := Traced.pure_eq_ok.mp h
  exact ⟨rfl, identifier_eq_ok.mp hi, rfl⟩

/-- A union uses what its options use. -/
theorem uses_unionTerm {key : Option Key} {options : List Term} {t : Term}
    (h : (unionTerm key options).outcome = .ok t) : t.uses = Term.optionUses options := by
  unfold unionTerm at h
  split at h
  · obtain ⟨name, -, h⟩ := Traced.bind_eq_ok.mp h
    obtain rfl := Traced.pure_eq_ok.mp h
    rfl
  · obtain rfl := Traced.pure_eq_ok.mp h
    rfl

/-- The term of a text uses no declaration. -/
theorem uses_stringTerm {path : Key} {checks : List Check} {t : Term}
    (h : (stringTerm path checks).outcome = .ok t) : t.uses = [] := by
  obtain ⟨calls, -, h⟩ := Traced.bind_eq_ok.mp h
  obtain rfl := Traced.pure_eq_ok.mp h
  rfl

/-- The term of a single value uses no declaration. -/
theorem uses_literalTerm {v : Value} {t : Term} (h : (literalTerm v).outcome = .ok t) :
    t.uses = [] := by
  obtain ⟨value, -, h⟩ := Traced.bind_eq_ok.mp h
  obtain rfl := Traced.pure_eq_ok.mp h
  rfl

/-- The term of one of several values uses no declaration. -/
theorem uses_enumTerm {values : List Value} {t : Term} (h : (enumTerm values).outcome = .ok t) :
    t.uses = [] := by
  obtain ⟨parts, -, h⟩ := Traced.bind_eq_ok.mp h
  obtain rfl := Traced.pure_eq_ok.mp h
  rfl

mutual

/-- The uses of a term are the references of its node, one by one. -/
theorem renders_term (c : Context) : ∀ (node : Node) (path : Key) (t : Term),
    (c.term node path).outcome = .ok t → List.Forall₂ c.Renders node.refs t.uses
  | .lazy ref, path, t, h => by
    rw [term] at h
    obtain ⟨u, hu, h⟩ := Traced.bind_eq_ok.mp h
    obtain rfl := Traced.pure_eq_ok.mp h
    exact .cons (renders_use hu) .nil
  | .object properties required, path, t, h => by
    rw [term] at h
    obtain ⟨parts, hp, h⟩ := Traced.bind_eq_ok.mp h
    obtain rfl := Traced.pure_eq_ok.mp h
    exact renders_propertyTerms c properties path parts hp
  | .array element, path, t, h => by
    rw [term] at h
    obtain ⟨place, -, h⟩ := Traced.bind_eq_ok.mp h
    obtain ⟨inner, hi, h⟩ := Traced.bind_eq_ok.mp h
    obtain rfl := Traced.pure_eq_ok.mp h
    exact renders_term c element place inner hi
  | .union options, path, t, h => by
    rw [term] at h
    obtain ⟨parts, hp, h⟩ := Traced.bind_eq_ok.mp h
    obtain ⟨key, -, h⟩ := Traced.bind_eq_ok.mp h
    rw [uses_unionTerm h]
    exact renders_optionTerms c options 0 path parts hp
  | .nullable inner, path, t, h => by
    rw [term] at h
    obtain ⟨part, hp, h⟩ := Traced.bind_eq_ok.mp h
    obtain rfl := Traced.pure_eq_ok.mp h
    exact renders_term c inner path part hp
  | .optional inner, path, t, h => by
    rw [term] at h
    obtain ⟨part, hp, h⟩ := Traced.bind_eq_ok.mp h
    obtain rfl := Traced.pure_eq_ok.mp h
    exact renders_term c inner path part hp
  | .string checks, path, t, h => by
    rw [term] at h
    rw [uses_stringTerm h]
    exact .nil
  | .enum [], path, t, h => by
    change (enumTerm []).outcome = .ok t at h
    rw [uses_enumTerm h]
    exact .nil
  | .enum [v], path, t, h => by
    rw [term] at h
    rw [uses_literalTerm h]
    exact .nil
  | .enum (v :: w :: values), path, t, h => by
    change (enumTerm (v :: w :: values)).outcome = .ok t at h
    rw [uses_enumTerm h]
    exact .nil
  | .literal v, path, t, h => by
    rw [term] at h
    rw [uses_literalTerm h]
    exact .nil
  | .number, path, t, h => by
    obtain rfl : .call "z.number()" = t := by simpa [term] using h
    exact .nil
  | .boolean, path, t, h => by
    obtain rfl : .call "z.boolean()" = t := by simpa [term] using h
    exact .nil
  | .never, path, t, h => by
    obtain rfl : .call "z.never()" = t := by simpa [term] using h
    exact .nil
  | .unknown, path, t, h => by
    obtain rfl : .call "z.unknown()" = t := by simpa [term] using h
    exact .nil
  | .plain, path, t, h => by
    obtain rfl : .call "z.unknown()" = t := by simpa [term] using h
    exact .nil

/-- The uses of properties are their references. -/
theorem renders_propertyTerms (c : Context) : ∀ (properties : List (Key × Node)) (path : Key)
    (parts : List (Text × Term)), (c.propertyTerms properties path).outcome = .ok parts →
    List.Forall₂ c.Renders (Node.propertyRefs properties) (Term.propertyUses parts)
  | [], path, parts, h => by
    obtain rfl : [] = parts := by simpa [propertyTerms] using h
    exact .nil
  | (key, node) :: rest, path, parts, h => by
    rw [propertyTerms] at h
    obtain ⟨name, -, h⟩ := Traced.bind_eq_ok.mp h
    obtain ⟨step, -, h⟩ := Traced.bind_eq_ok.mp h
    obtain ⟨place, -, h⟩ := Traced.bind_eq_ok.mp h
    obtain ⟨value, hv, h⟩ := Traced.bind_eq_ok.mp h
    obtain ⟨others, hr, h⟩ := Traced.bind_eq_ok.mp h
    obtain rfl := Traced.pure_eq_ok.mp h
    exact List.rel_append (renders_term c node place value hv)
      (renders_propertyTerms c rest path others hr)

/-- The uses of options are their references. -/
theorem renders_optionTerms (c : Context) : ∀ (options : List Node) (index : Nat) (path : Key)
    (parts : List Term), (c.optionTerms index options path).outcome = .ok parts →
    List.Forall₂ c.Renders (Node.optionRefs options) (Term.optionUses parts)
  | [], index, path, parts, h => by
    obtain rfl : [] = parts := by simpa [optionTerms] using h
    exact .nil
  | option :: rest, index, path, parts, h => by
    rw [optionTerms] at h
    obtain ⟨place, -, h⟩ := Traced.bind_eq_ok.mp h
    obtain ⟨first, hf, h⟩ := Traced.bind_eq_ok.mp h
    obtain ⟨others, hr, h⟩ := Traced.bind_eq_ok.mp h
    obtain rfl := Traced.pure_eq_ok.mp h
    exact List.rel_append (renders_term c option place first hf)
      (renders_optionTerms c rest (index + 1) path others hr)

end

end Context

end ZodSchemas
