import ZodSchemas.Proofs.Conversion.Canonical
import ZodSchemas.Proofs.Declaration.Agreement
import ZodSchemas.Proofs.Declaration.Placement
import ZodSchemas.Proofs.Text.Paragraph
import ZodSchemas.Proofs.Value.Printed

/-!
# The layout of generated code

An empty line stands between the import and the declarations and between two
declarations, and nowhere else. Literals are written as JSON, which is one line,
and an object is indented, so whatever texts a document gives as keys or values,
they never make an empty line. Only what the code takes over as it is could do
so: the prefix, the module, the names of schemas and the bounds of lengths.
-/

namespace ZodSchemas

open Lines

/-- Visible text is one line. -/
theorem Text.IsVisible.isSolid {t : Text} (h : t.IsVisible) : IsSolid t :=
  isSolid_of_not_mem fun hl => absurd (h _ hl).1 (by decide)

namespace Term

/-- An object is solid, whatever stands in it. -/
theorem isSolid_objectText (properties : List Text) : IsSolid (objectText properties) := by
  have hbreak : ("z.object(\x7b\n" : Text) = "z.object(\x7b" ++ [lineFeed] := by decide
  have hend : ("\n\x7d)" : Text) = lineFeed :: ("\x7d)" : Text) := by decide
  have hopen : IsSolid ("z.object(\x7b" : Text) := isSolid_of_not_mem (by decide)
  have hclose : IsSolid ("\x7d)" : Text) := isSolid_of_not_mem (by decide)
  unfold objectText
  split
  · exact isSolid_of_not_mem (by decide)
  · set inner := indent 1 (List.intercalate ",\n" properties) with hi
    have hinner : IsSolid inner := isSolid_indent (by decide) _
    have hne : inner ≠ [] := indent_ne_nil (by decide) _
    have hbelow := hopen.below (hinner.below hclose hne (by decide)) (by decide) (by simp)
    rw [hbreak, hend]
    simpa using hbelow

/-- Solid options in brackets are solid. -/
theorem isSolid_bracketed {options : List Text} (h : ∀ t ∈ options, IsSolid t) :
    IsSolid (bracketed options) := by
  have hbetween : IsSolid (", " : Text) := isSolid_of_not_mem (by decide)
  have hopen : IsSolid ("[" : Text) := isSolid_of_not_mem (by decide)
  exact (hopen.append (isSolid_intercalate hbetween h)).append (isSolid_of_not_mem (by decide))

end Term

/-- The use of a declaration whose identifier is one line is solid. -/
theorem Use.isSolid_text {u : Use} (h : lineFeed ∉ u.identifier) : IsSolid u.text := by
  have hi : IsSolid u.identifier := isSolid_of_not_mem h
  have hopen : IsSolid ("z.lazy(() => " : Text) := isSolid_of_not_mem (by decide)
  unfold Use.text
  split
  · exact (hopen.append hi).append (isSolid_of_not_mem (by decide))
  · exact hi

namespace Node

/-- What the code of a node takes over as it is, is one line each: the identifiers of what the node
refers to and the bounds of its lengths. -/
structure IsUnbroken (settings : Settings) (node : Node) : Prop where
  /-- The identifiers of references. -/
  identifiers : ∀ ref ∈ node.refs, ∀ t, settings.identifier (.ofKey ref.name) = .ok t →
    lineFeed ∉ t
  /-- The bounds of lengths. -/
  bounds : ∀ checks, (Node.string checks).IsWithin node → ∀ check ∈ checks,
    check.kind = .min ∨ check.kind = .max → ∀ t, check.bound.plain = .ok t → lineFeed ∉ t

/-- What holds of a node holds of what stands directly inside it. -/
theorem IsUnbroken.part {settings : Settings} {part node : Node} (h : node.IsUnbroken settings)
    (hp : part.IsPartOf node) (hr : part.refs ⊆ node.refs) : part.IsUnbroken settings where
  identifiers ref hm := h.identifiers ref (hr hm)
  bounds checks hw := h.bounds checks (hw.tail hp)

/-- What holds of a union holds of its options. -/
theorem IsUnbroken.option {settings : Settings} {options : List Node} {option : Node}
    (h : (Node.union options).IsUnbroken settings) (hm : option ∈ options) :
    option.IsUnbroken settings :=
  h.part (.option hm) fun _ hr => mem_optionRefs.mpr ⟨option, hm, hr⟩

end Node

namespace Context

variable {c : Context}

/-- A literal is one line. -/
theorem isVisible_literal {v : Value} {t : Text} (h : (literal v).outcome = .ok t) :
    t.IsVisible :=
  Json.isVisible_write v t (written_eq_ok.mp h)

/-- Literals are one line each. -/
theorem isVisible_literals {values : List Value} {parts : List Text}
    (h : (literals values).outcome = .ok parts) : ∀ p ∈ parts, Text.IsVisible p := by
  induction values generalizing parts with
  | nil =>
    obtain rfl : [] = parts := by simpa [literals] using h
    simp
  | cons v rest ih =>
    obtain ⟨first, hf, h⟩ := Traced.bind_eq_ok.mp h
    obtain ⟨others, ho, h⟩ := Traced.bind_eq_ok.mp h
    obtain rfl := Traced.pure_eq_ok.mp h
    exact List.forall_mem_cons.mpr ⟨isVisible_literal hf, ih ho⟩

/-- The call of a check whose bound is one line is one line. -/
theorem not_mem_checkCall {path : Key} {check : Check} {call : Text}
    (hb : check.kind = .min ∨ check.kind = .max → ∀ t, check.bound.plain = .ok t → lineFeed ∉ t)
    (h : (checkCall path check).outcome = .ok call) : lineFeed ∉ call := by
  have around : ∀ (front bound : Text), lineFeed ∉ front → check.bound.plain = .ok bound →
      check.kind = .min ∨ check.kind = .max → lineFeed ∉ front ++ bound ++ (")" : Text) := by
    intro front bound hf hw hk
    have hbound := hb hk bound hw
    have hend : lineFeed ∉ (")" : Text) := by decide
    simp [hf, hbound, hend]
  unfold checkCall at h
  split at h
  · next hk =>
    obtain ⟨bound, hw, h⟩ := Traced.bind_eq_ok.mp h
    obtain rfl := Traced.pure_eq_ok.mp h
    exact around _ bound (by decide) (written_eq_ok.mp hw) (.inl hk)
  · next hk =>
    obtain ⟨bound, hw, h⟩ := Traced.bind_eq_ok.mp h
    obtain rfl := Traced.pure_eq_ok.mp h
    exact around _ bound (by decide) (written_eq_ok.mp hw) (.inr hk)
  · obtain rfl := Traced.pure_eq_ok.mp h
    decide
  · obtain ⟨place, -, h⟩ := Traced.bind_eq_ok.mp h
    simp at h

/-- The calls of checks whose bounds are one line are one line. -/
theorem not_mem_checkCalls {path : Key} {checks : List Check} {calls : Text}
    (hb : ∀ check ∈ checks, check.kind = .min ∨ check.kind = .max →
      ∀ t, check.bound.plain = .ok t → lineFeed ∉ t)
    (h : (checkCalls path checks).outcome = .ok calls) : lineFeed ∉ calls := by
  induction checks generalizing calls with
  | nil =>
    obtain rfl : [] = calls := by simpa [checkCalls] using h
    simp
  | cons check rest ih =>
    obtain ⟨call, hc, h⟩ := Traced.bind_eq_ok.mp h
    obtain ⟨others, ho, h⟩ := Traced.bind_eq_ok.mp h
    obtain rfl := Traced.pure_eq_ok.mp h
    have hfirst := not_mem_checkCall (hb check (by simp)) hc
    have hothers := ih (fun other hm => hb other (List.mem_cons_of_mem _ hm)) ho
    simp [hfirst, hothers]

/-- The term of a text whose bounds are one line is solid. -/
theorem isSolid_stringTerm {path : Key} {checks : List Check} {t : Term}
    (hb : ∀ check ∈ checks, check.kind = .min ∨ check.kind = .max →
      ∀ t, check.bound.plain = .ok t → lineFeed ∉ t)
    (h : (stringTerm path checks).outcome = .ok t) : IsSolid t.text := by
  obtain ⟨calls, hc, h⟩ := Traced.bind_eq_ok.mp h
  obtain rfl := Traced.pure_eq_ok.mp h
  have hcalls : IsSolid calls := isSolid_of_not_mem (not_mem_checkCalls hb hc)
  exact IsSolid.append (isSolid_of_not_mem (by decide)) hcalls

/-- The term of a single value is solid, whatever the value holds. -/
theorem isSolid_literalTerm {v : Value} {t : Term} (h : (literalTerm v).outcome = .ok t) :
    IsSolid t.text := by
  obtain ⟨value, hv, h⟩ := Traced.bind_eq_ok.mp h
  obtain rfl := Traced.pure_eq_ok.mp h
  have hopen : IsSolid ("z.literal(" : Text) := isSolid_of_not_mem (by decide)
  exact (hopen.append (isVisible_literal hv).isSolid).append (isSolid_of_not_mem (by decide))

/-- The term of one of several values is solid, whatever the values hold. -/
theorem isSolid_enumTerm {values : List Value} {t : Term}
    (h : (enumTerm values).outcome = .ok t) : IsSolid t.text := by
  obtain ⟨parts, hp, h⟩ := Traced.bind_eq_ok.mp h
  obtain rfl := Traced.pure_eq_ok.mp h
  have hopen : IsSolid ("z.enum([" : Text) := isSolid_of_not_mem (by decide)
  have hcomma : Text.IsVisible ", " := by decide
  have hparts := (Text.isVisible_intercalate hcomma (isVisible_literals hp)).isSolid
  exact (hopen.append hparts).append (isSolid_of_not_mem (by decide))

/-- The term of a union of solid options is solid. -/
theorem isSolid_unionTerm {key : Option Key} {options : List Term} {t : Term}
    (ho : ∀ text ∈ Term.optionTexts options, IsSolid text)
    (h : (unionTerm key options).outcome = .ok t) : IsSolid t.text := by
  have hoptions : IsSolid (Term.bracketed (Term.optionTexts options)) :=
    Term.isSolid_bracketed ho
  have hend : IsSolid (")" : Text) := isSolid_of_not_mem (by decide)
  unfold unionTerm at h
  split at h
  · obtain ⟨name, hn, h⟩ := Traced.bind_eq_ok.mp h
    obtain rfl := Traced.pure_eq_ok.mp h
    have hopen : IsSolid ("z.discriminatedUnion(" : Text) := isSolid_of_not_mem (by decide)
    have hcomma : IsSolid (", " : Text) := isSolid_of_not_mem (by decide)
    exact ((((hopen.append (isVisible_literal hn).isSolid).append hcomma).append hoptions).append
      hend)
  · obtain rfl := Traced.pure_eq_ok.mp h
    have hopen : IsSolid ("z.union(" : Text) := isSolid_of_not_mem (by decide)
    exact (hopen.append hoptions).append hend

mutual

/-- The term of a node is solid when what it takes over as it is, is one line each. -/
theorem isSolid_term (c : Context) : ∀ (node : Node) (path : Key) (t : Term),
    node.IsUnbroken c.settings → (c.term node path).outcome = .ok t → IsSolid t.text
  | .lazy ref, path, t, hu, h => by
    rw [term] at h
    obtain ⟨u, hr, h⟩ := Traced.bind_eq_ok.mp h
    obtain rfl := Traced.pure_eq_ok.mp h
    have hi := (renders_use hr).identifier
    exact Use.isSolid_text (hu.identifiers ref (List.mem_singleton_self ref) _ hi)
  | .object properties required, path, t, hu, h => by
    rw [term] at h
    obtain ⟨parts, -, h⟩ := Traced.bind_eq_ok.mp h
    obtain rfl := Traced.pure_eq_ok.mp h
    exact Term.isSolid_objectText _
  | .array element, path, t, hu, h => by
    rw [term] at h
    obtain ⟨place, -, h⟩ := Traced.bind_eq_ok.mp h
    obtain ⟨inner, hi, h⟩ := Traced.bind_eq_ok.mp h
    obtain rfl := Traced.pure_eq_ok.mp h
    have hinner := isSolid_term c element place inner (hu.part .element (List.Subset.refl _)) hi
    have hopen : IsSolid ("z.array(" : Text) := isSolid_of_not_mem (by decide)
    exact (hopen.append hinner).append (isSolid_of_not_mem (by decide))
  | .union options, path, t, hu, h => by
    rw [term] at h
    obtain ⟨parts, hp, h⟩ := Traced.bind_eq_ok.mp h
    obtain ⟨key, -, h⟩ := Traced.bind_eq_ok.mp h
    exact isSolid_unionTerm (isSolid_optionTerms c options 0 path parts
      (fun option hm => hu.option hm) hp) h
  | .nullable inner, path, t, hu, h => by
    rw [term] at h
    obtain ⟨part, hp, h⟩ := Traced.bind_eq_ok.mp h
    obtain rfl := Traced.pure_eq_ok.mp h
    have hpart := isSolid_term c inner path part (hu.part .nullable (List.Subset.refl _)) hp
    exact hpart.append (isSolid_of_not_mem (by decide))
  | .optional inner, path, t, hu, h => by
    rw [term] at h
    obtain ⟨part, hp, h⟩ := Traced.bind_eq_ok.mp h
    obtain rfl := Traced.pure_eq_ok.mp h
    have hpart := isSolid_term c inner path part (hu.part .optional (List.Subset.refl _)) hp
    exact hpart.append (isSolid_of_not_mem (by decide))
  | .string checks, path, t, hu, h => by
    rw [term] at h
    exact isSolid_stringTerm (hu.bounds checks .refl) h
  | .enum [], path, t, hu, h => by
    change (enumTerm []).outcome = .ok t at h
    exact isSolid_enumTerm h
  | .enum [v], path, t, hu, h => by
    rw [term] at h
    exact isSolid_literalTerm h
  | .enum (v :: w :: values), path, t, hu, h => by
    change (enumTerm (v :: w :: values)).outcome = .ok t at h
    exact isSolid_enumTerm h
  | .literal v, path, t, hu, h => by
    rw [term] at h
    exact isSolid_literalTerm h
  | .number, path, t, hu, h | .boolean, path, t, hu, h | .never, path, t, hu, h
  | .unknown, path, t, hu, h | .plain, path, t, hu, h => by
    rw [term] at h
    obtain rfl := Traced.pure_eq_ok.mp h
    exact isSolid_of_not_mem (by decide)

/-- The terms of options are solid when what they take over as it is, is one line each. -/
theorem isSolid_optionTerms (c : Context) : ∀ (options : List Node) (index : Nat) (path : Key)
    (parts : List Term), (∀ option ∈ options, option.IsUnbroken c.settings) →
    (c.optionTerms index options path).outcome = .ok parts →
    ∀ text ∈ Term.optionTexts parts, IsSolid text
  | [], index, path, parts, hu, h => by
    obtain rfl : [] = parts := by simpa [optionTerms] using h
    simp [Term.optionTexts]
  | option :: rest, index, path, parts, hu, h => by
    rw [optionTerms] at h
    obtain ⟨place, -, h⟩ := Traced.bind_eq_ok.mp h
    obtain ⟨first, hf, h⟩ := Traced.bind_eq_ok.mp h
    obtain ⟨others, hr, h⟩ := Traced.bind_eq_ok.mp h
    obtain rfl := Traced.pure_eq_ok.mp h
    have hfirst := isSolid_term c option place first (hu option (by simp)) hf
    have hothers := isSolid_optionTerms c rest (index + 1) path others
      (fun other hm => hu other (List.mem_cons_of_mem _ hm)) hr
    exact List.forall_mem_cons.mpr ⟨hfirst, hothers⟩

end

end Context

namespace Registry

/-- What stands in the code for a document as it was given, is one line each: the prefix and the
module, the names of schemas and the bounds of lengths. -/
structure IsUnbroken (registry : Registry) (settings : Settings) : Prop where
  /-- The prefix. -/
  namePrefix : ∀ t, settings.namePrefix.plain = .ok t → lineFeed ∉ t
  /-- The module. -/
  module : ∀ t, settings.module.plain = .ok t → lineFeed ∉ t
  /-- The names of schemas. -/
  names : ∀ name ∈ Entries.keys registry.entries, ∀ t, name.plain = .ok t → lineFeed ∉ t
  /-- The bounds of lengths. -/
  bounds : ∀ name body, registry.HasBody name body →
    ∀ checks, (Node.string checks).IsWithin body → ∀ check ∈ checks,
      check.kind = .min ∨ check.kind = .max → ∀ t, check.bound.plain = .ok t → lineFeed ∉ t

variable {settings : Settings} {document : Value} {c : Converter} {map : DependencyMap}
  {ds : List Declaration}

/-- The identifier of a registered name is one line. -/
theorem IsUnbroken.identifier {registry : Registry} (h : registry.IsUnbroken settings) {name : Key}
    (hn : name ∈ Entries.keys registry.entries) {t : Text}
    (ht : settings.identifier (.ofKey name) = .ok t) : lineFeed ∉ t := by
  unfold Settings.identifier at ht
  split at ht
  · simp at ht
  · obtain ⟨front, hf, ht⟩ := exceptBind_eq_ok.mp ht
    obtain ⟨own, ho, ht⟩ := exceptBind_eq_ok.mp ht
    obtain rfl := Except.ok.inj ht
    have hfront := h.namePrefix front hf
    have hown := h.names name hn own ho
    have hend : lineFeed ∉ ("Schema" : Text) := by decide
    simp [hfront, hown, hend]

end Registry

end ZodSchemas
