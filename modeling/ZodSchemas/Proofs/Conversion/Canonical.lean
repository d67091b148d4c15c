import ZodSchemas.Proofs.Conversion.Accounting
import ZodSchemas.Proofs.Declaration.Placement
import ZodSchemas.Proofs.Node.Inside

/-!
# Canonical bodies

What validation and code generation rely on holds of every node that is
registered. A union has a choice, an enumeration is not a literal in disguise,
absence is a matter of properties alone and of exactly those that are not
required, checks come in one order, and a reference is the entry of its name, so
it never leads out of the registry. All of it is read off the form that
conversion gives nodes, at whatever depth they stand.
-/

namespace ZodSchemas

namespace Node

/-- A formed node is not optional. -/
theorem IsFormed.ne_optional {known : Ref → Prop} {node : Node} (h : node.IsFormed known)
    (inner : Node) : node ≠ .optional inner := by
  rintro rfl
  cases h

/-- What stands directly inside a formed node is formed, or is an optional property that is formed
when it is present. -/
theorem IsFormed.of_isPartOf {known : Ref → Prop} {part node : Node} (h : node.IsFormed known)
    (hp : part.IsPartOf node) :
    part.IsFormed known ∨ ∃ inner, part = .optional inner ∧ inner.IsFormed known := by
  cases hp with
  | property he =>
    cases h with
    | object present formed wrapped =>
      have hf := formed _ he
      have hw := wrapped _ he
      dsimp only at hw
      split at hw
      · exact .inl (hw ▸ hf)
      · exact .inr ⟨_, hw, hf⟩
  | element =>
    cases h with
    | array formed => exact .inl formed
  | option ho =>
    cases h with
    | union _ formed => exact .inl (formed _ ho)
  | nullable =>
    cases h with
    | nullable formed => exact .inl formed
  | optional => exact absurd rfl (h.ne_optional _)

/-- What stands anywhere inside a formed node is formed, or is an optional property that is formed
when it is present. -/
theorem IsFormed.of_isWithin {known : Ref → Prop} {inner node : Node} (h : node.IsFormed known)
    (hw : inner.IsWithin node) :
    inner.IsFormed known ∨ ∃ present, inner = .optional present ∧ present.IsFormed known := by
  induction hw using Relation.ReflTransGen.head_induction_on with
  | refl => exact .inl h
  | head hp _ ih =>
    rcases ih with hf | ⟨present, rfl, hf⟩
    · exact hf.of_isPartOf hp
    · cases hp with
      | optional => exact .inl hf

end Node

namespace Registry

/-- What is relied on of a node and of what stands directly inside it. -/
structure IsCanonicalAt (registry : Registry) (node : Node) : Prop where
  /-- A union has two options or more. -/
  union : ∀ options, node = .union options → 2 ≤ options.length
  /-- An enumeration does not have exactly one value. -/
  enum : ∀ values, node = .enum values → values.length ≠ 1
  /-- Only properties of objects are optional. -/
  optional : ∀ inner, (Node.optional inner).IsPartOf node →
    ∃ properties required, node = .object properties required
  /-- What is optional is not optional again. -/
  nested : ∀ inner, node = .optional inner → ∀ present, inner ≠ .optional present
  /-- The properties that are optional are those that are not required. -/
  property : ∀ properties required, node = .object properties required →
    ∀ e ∈ properties, (∃ inner, e.2 = .optional inner) ↔ e.1.isAmong required = false
  /-- Checks come in their order, each kind once at most. -/
  checks : ∀ checks, node = .string checks →
    (checks.map (·.kind)).Sublist [.min, .max, .date]
  /-- A reference is the entry of its name. -/
  reference : ∀ ref, node = .lazy ref →
    Entries.find? ref.name registry.entries = some (.lazy ref)

/-- What is relied on of the body of an entry. -/
structure IsCanonical (registry : Registry) (body : Node) : Prop where
  /-- The body itself is not optional. -/
  present : ∀ inner, body ≠ .optional inner
  /-- Every node in the body is as it should be. -/
  throughout : ∀ node, node.IsWithin body → registry.IsCanonicalAt node

variable {registry : Registry} {known : Ref → Prop}

/-- A formed node is as it should be where known references are the entries of their names. -/
theorem isCanonicalAt_of_isFormed {node : Node}
    (hr : ∀ ref, known ref → Entries.find? ref.name registry.entries = some (.lazy ref))
    (h : node.IsFormed known) : registry.IsCanonicalAt node where
  union := by
    rintro options rfl
    cases h with
    | union several _ => exact several
  enum := by
    rintro values rfl
    cases h with
    | enum several => exact several
  optional inner hp := by
    cases hp with
    | property _ => exact ⟨_, _, rfl⟩
    | element =>
      cases h with
      | array formed => exact absurd rfl (formed.ne_optional inner)
    | option ho =>
      cases h with
      | union _ formed => exact absurd rfl ((formed _ ho).ne_optional inner)
    | nullable =>
      cases h with
      | nullable formed => exact absurd rfl (formed.ne_optional inner)
    | optional => exact absurd rfl (h.ne_optional _)
  nested inner hn := absurd hn (h.ne_optional inner)
  property := by
    rintro properties required rfl e he
    cases h with
    | object present formed wrapped =>
      rw [wrapped e he]
      cases e.1.isAmong required with
      | true => simpa using (formed e he).ne_optional
      | false => simp
  checks := by
    rintro checks rfl
    cases h with
    | string ordered => exact ordered
  reference := by
    rintro ref rfl
    cases h with
    | lazy h => exact hr ref h

/-- A formed body is as it should be at every depth. -/
theorem isCanonical_of_isFormed {body : Node}
    (hr : ∀ ref, known ref → Entries.find? ref.name registry.entries = some (.lazy ref))
    (h : body.IsFormed known) : registry.IsCanonical body := by
  refine ⟨h.ne_optional, fun node hw => ?_⟩
  rcases h.of_isWithin hw with hf | ⟨present, rfl, hf⟩
  · exact isCanonicalAt_of_isFormed hr hf
  · refine ⟨by simp, by simp, fun inner hp => ?_, ?_, by simp, by simp, by simp⟩
    · cases hp with
      | optional => exact absurd rfl (hf.ne_optional inner)
    · rintro inner ⟨⟩
      exact hf.ne_optional

end Registry

namespace Converter

variable {start c : Converter} {ref : Ref}

/-- A known reference is what is registered under its name, once all definitions are. -/
theorem find?_of_registerAll (h : start.registerAll = .ok c) (hk : c.source.Knows ref) :
    Entries.find? ref.name c.entries = some ref := by
  obtain ⟨entries, -, h⟩ := exceptBind_eq_ok.mp h
  obtain rfl := Except.ok.inj h
  obtain ⟨name, origin⟩ := ref
  obtain ⟨ho, t, schema, rfl, hd⟩ := hk
  obtain rfl : origin = start.round + 1 := ho
  have hm : Key.text t ∈ definedNames start.definitions :=
    Key.text_mem_of_isAmong (isAmong_definedNames hd)
  refine Entries.find?_merge_of_forall ?_ fun e he hs => ?_
  · rw [Entries.has_eq_isAmong]
    refine Key.isAmong_of_mem ?_
    simpa [Entries.keys, Function.comp_def] using hm
  · obtain ⟨k, -, rfl⟩ := List.mem_map.mp he
    obtain rfl : k = .text t := Key.eq_text_of_same hs
    rfl

/-- Every body is formed, with references to defined names. -/
theorem isFormed_body {body : Node} (h : c.registry.body ref = .ok body) :
    body.IsFormed c.source.Knows := by
  rcases body_eq_ok.mp h with ⟨schema, -, h⟩ | ⟨-, rfl⟩
  · exact Source.isFormed_convert h
  · exact .unknown

/-- Once all definitions are registered, and whichever references are followed since, the body of
every entry is canonical. -/
theorem isCanonical_of_registerAll (h : start.registerAll = .ok c) (followed : List Ref)
    {name : Key} {body : Node} (hb : (c.followAll followed).registry.HasBody name body) :
    (c.followAll followed).registry.IsCanonical body := by
  obtain ⟨entry, hf, hb⟩ := hb
  obtain ⟨ref, rfl⟩ := exists_lazy_of_find? hf
  have hbody := Registry.resolve_eq_ok.mp hb
  refine Registry.isCanonical_of_isFormed (fun next hn => ?_) (isFormed_body hbody)
  have hafter := (followAll_spec c followed).1
  rw [hafter.source] at hn
  have hentry := hafter.registered _ _ (find?_of_registerAll h hn)
  exact (Entries.find?_map Node.lazy _ _).trans (congrArg (Option.map Node.lazy) hentry)

/-- A converter of an object that may refer to itself, or else ends. -/
def chainConverter : Converter where
  definitions := .map [("Chain", .map [("type", "object"), ("required", .list ["label"]),
    ("properties", .map [
      ("label", .map [("type", "string"), ("maxLength", .int 9), ("minLength", .int 1)]),
      ("next", .map [("anyOf", .list [.map [("$ref", "#/Chain")],
        .map [("type", "string"), ("enum", .list ["end"])]])])])])]
  round := 0
  entries := []
  converted := []
  missing := []

/-- The body of the object. -/
def chainBody : Node :=
  .object [("label", .string [⟨.min, .int 1⟩, ⟨.max, .int 9⟩]),
    ("next", .optional (.union [.lazy ⟨"Chain", 1⟩, .literal "end"]))] ["label"]

/-- The body of an object that refers to itself is canonical, after its reference was followed. -/
theorem isCanonical_of_registerAll_chain : ∃ c, chainConverter.registerAll = .ok c ∧
    (c.followAll [⟨"Chain", 1⟩]).registry.HasBody "Chain" chainBody ∧
      (c.followAll [⟨"Chain", 1⟩]).registry.IsCanonical chainBody := by
  have hr : ∃ c, chainConverter.registerAll = .ok c := ⟨_, rfl⟩
  obtain ⟨c, hc⟩ := hr
  have hb : (c.followAll [⟨"Chain", 1⟩]).registry.HasBody "Chain" chainBody := by
    obtain rfl := Except.ok.inj hc
    exact ⟨.lazy ⟨"Chain", 1⟩, rfl, rfl⟩
  exact ⟨c, hc, hb, isCanonical_of_registerAll hc _ hb⟩

end Converter

end ZodSchemas
