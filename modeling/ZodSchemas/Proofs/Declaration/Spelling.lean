import ZodSchemas.Declaration.File

/-!
# Settings that differ by their identifiers

Settings matter to declarations by the identifiers that they give, and to a file
by the module as well. So where the identifiers of some settings are those of
others in another spelling, the same computation takes place with both, step by
step: it follows the same references, and it ends with the same error or with
terms that differ by the spelling of the identifiers alone.
-/

namespace ZodSchemas

namespace Traced

variable {ω ε α β : Type}

/-- Changing the value at the end leaves the events as they are. -/
theorem events_map (f : α → β) (x : Traced ω ε α) : (f <$> x).events = x.events := by
  obtain ⟨events, outcome⟩ := x
  cases outcome with
  | ok a => exact List.append_nil events
  | error e => rfl

/-- An error has no value that could be changed. -/
theorem map_fail (f : α → β) (e : ε) :
    f <$> (Traced.fail e : Traced ω ε α) = Traced.fail e := rfl

end Traced

/-- The use with another spelling of its identifier. -/
def Use.respelled (f : Text → Text) (u : Use) : Use := { u with identifier := f u.identifier }

namespace Term

mutual

/-- The term with another spelling of the identifiers. -/
def respelled (f : Text → Text) : Term → Term
  | .call t => .call t
  | .use u => .use (u.respelled f)
  | .object properties => .object (respelledProperties f properties)
  | .array element => .array (element.respelled f)
  | .union options => .union (respelledOptions f options)
  | .discriminated key options => .discriminated key (respelledOptions f options)
  | .nullable inner => .nullable (inner.respelled f)
  | .optional inner => .optional (inner.respelled f)

/-- The properties with another spelling of the identifiers. -/
def respelledProperties (f : Text → Text) : List (Text × Term) → List (Text × Term)
  | [] => []
  | (name, value) :: rest => (name, value.respelled f) :: respelledProperties f rest

/-- The options with another spelling of the identifiers. -/
def respelledOptions (f : Text → Text) : List Term → List Term
  | [] => []
  | option :: rest => option.respelled f :: respelledOptions f rest

end

mutual

/-- A term in its own spelling is the term. -/
theorem respelled_id : ∀ t : Term, t.respelled id = t
  | .call t => by rw [respelled]
  | .use u => by rw [respelled]; rfl
  | .object properties => by rw [respelled, respelledProperties_id properties]
  | .array element => by rw [respelled, respelled_id element]
  | .union options => by rw [respelled, respelledOptions_id options]
  | .discriminated key options => by rw [respelled, respelledOptions_id options]
  | .nullable inner => by rw [respelled, respelled_id inner]
  | .optional inner => by rw [respelled, respelled_id inner]

/-- Properties in their own spelling are the properties. -/
theorem respelledProperties_id : ∀ properties : List (Text × Term),
    respelledProperties id properties = properties
  | [] => by rw [respelledProperties]
  | (name, value) :: rest => by
    rw [respelledProperties, respelled_id value, respelledProperties_id rest]

/-- Options in their own spelling are the options. -/
theorem respelledOptions_id : ∀ options : List Term, respelledOptions id options = options
  | [] => by rw [respelledOptions]
  | option :: rest => by rw [respelledOptions, respelled_id option, respelledOptions_id rest]

end

end Term

/-- The declaration with another spelling of the identifiers. -/
def Declaration.respelled (f : Text → Text) (d : Declaration) : Declaration :=
  ⟨d.name, f d.identifier, d.term.respelled f⟩

/-- The file with another spelling of the identifiers. -/
def CodeFile.respelled (f : Text → Text) (file : CodeFile) : CodeFile :=
  { file with declarations := file.declarations.map (Declaration.respelled f) }

/-- A file in its own spelling is the file. -/
theorem CodeFile.respelled_id (file : CodeFile) : file.respelled id = file := by
  have hd : Declaration.respelled id = id := by
    funext d
    rw [Declaration.respelled, Term.respelled_id]
    rfl
  rw [respelled, hd, List.map_id]

namespace Settings

/-- Settings give the identifiers of others in another spelling, and build on the same module. -/
structure Respells (s : Settings) (f : Text → Text) (t : Settings) : Prop where
  /-- An identifier is that of the others in another spelling. -/
  identifier : ∀ name, s.identifier name = f <$> t.identifier name
  /-- The module is the same. -/
  module : s.module = t.module

/-- Output settings show in no identifier. -/
theorem respells_withOutput (settings : Settings) (output : OutputEntry) :
    ({ settings with output := output } : Settings).Respells id settings := by
  refine ⟨fun name => ?_, rfl⟩
  rw [id_map]
  rfl

end Settings

namespace Context

variable {registry : Registry} {progress : Progress} {s t : Settings} {f : Text → Text}

/-- The identifier of a name is rendered in the other spelling. -/
theorem identifier_respelled (h : s.Respells f t) (name : Key) :
    (⟨registry, s, progress⟩ : Context).identifier name =
      f <$> (⟨registry, t, progress⟩ : Context).identifier name := by
  change Following.asRendering (Traced.ofExcept (s.identifier (.ofKey name))) =
    f <$> Following.asRendering (Traced.ofExcept (t.identifier (.ofKey name)))
  rw [h.identifier]
  cases t.identifier (.ofKey name) <;> rfl

/-- The use of a name differs by the spelling alone. -/
theorem use_respelled (h : s.Respells f t) (name : Key) :
    (⟨registry, s, progress⟩ : Context).use name =
      Use.respelled f <$> (⟨registry, t, progress⟩ : Context).use name := by
  unfold use
  rw [identifier_respelled h]
  simp only [map_bind, bind_map_left, map_pure, Use.respelled]

/-- Whether an option is an object does not depend on the settings. -/
theorem optionProperties_settings (option : Node) :
    (⟨registry, s, progress⟩ : Context).optionProperties option =
      (⟨registry, t, progress⟩ : Context).optionProperties option := rfl

/-- The key that tells options apart does not depend on the settings. -/
theorem discriminator_settings (options : List Node) :
    (⟨registry, s, progress⟩ : Context).discriminator options =
      (⟨registry, t, progress⟩ : Context).discriminator options := by
  have hfrom : ∀ options key seen,
      (⟨registry, s, progress⟩ : Context).discriminatorFrom key seen options =
        (⟨registry, t, progress⟩ : Context).discriminatorFrom key seen options := by
    intro options
    induction options with
    | nil => exact fun _ _ => rfl
    | cons option rest ih =>
      intro key seen
      rw [discriminatorFrom, discriminatorFrom, optionProperties_settings (t := t)]
      simp only [ih]
  unfold discriminator
  rw [hfrom]

/-- A union of terms in another spelling is the union in that spelling. -/
theorem unionTerm_respelled (key : Option Key) (options : List Term) :
    unionTerm key (Term.respelledOptions f options) =
      Term.respelled f <$> unionTerm key options := by
  unfold unionTerm
  split
  · simp only [map_bind, map_pure, Term.respelled]
  · simp only [map_pure, Term.respelled]

mutual

/-- The term of a node differs by the spelling of identifiers alone. -/
theorem term_respelled (h : s.Respells f t) : ∀ (node : Node) (path : Key),
    (⟨registry, s, progress⟩ : Context).term node path =
      Term.respelled f <$> (⟨registry, t, progress⟩ : Context).term node path
  | .lazy ref, path => by
    rw [term, term, use_respelled h]
    simp only [map_bind, bind_map_left, map_pure, Term.respelled]
  | .object properties required, path => by
    rw [term, term, propertyTerms_respelled h properties path]
    simp only [map_bind, bind_map_left, map_pure, Term.respelled]
  | .array element, path => by
    rw [term, term]
    simp only [term_respelled h element, map_bind, bind_map_left, map_pure, Term.respelled]
  | .union options, path => by
    rw [term, term, optionTerms_respelled h options, discriminator_settings (t := t)]
    simp only [unionTerm_respelled, map_bind, bind_map_left]
  | .nullable inner, path => by
    rw [term, term, term_respelled h inner]
    simp only [map_bind, bind_map_left, map_pure, Term.respelled]
  | .optional inner, path => by
    rw [term, term, term_respelled h inner]
    simp only [map_bind, bind_map_left, map_pure, Term.respelled]
  | .string checks, path => by
    rw [term, term, stringTerm]
    simp only [map_bind, map_pure, Term.respelled]
  | .literal v, path => by
    rw [term, term, literalTerm]
    simp only [map_bind, map_pure, Term.respelled]
  | .enum [v], path => by
    rw [term, term, literalTerm]
    simp only [map_bind, map_pure, Term.respelled]
  | .enum [], path => by
    change enumTerm [] = _ <$> enumTerm []
    simp only [enumTerm, map_bind, map_pure, Term.respelled]
  | .enum (v :: w :: values), path => by
    change enumTerm (v :: w :: values) = _ <$> enumTerm (v :: w :: values)
    simp only [enumTerm, map_bind, map_pure, Term.respelled]
  | .number, path | .boolean, path | .never, path | .unknown, path | .plain, path => by
    rw [term, term, map_pure, Term.respelled]

/-- The terms of properties differ by the spelling of identifiers alone. -/
theorem propertyTerms_respelled (h : s.Respells f t) :
    ∀ (properties : List (Key × Node)) (path : Key),
      (⟨registry, s, progress⟩ : Context).propertyTerms properties path =
        Term.respelledProperties f <$>
          (⟨registry, t, progress⟩ : Context).propertyTerms properties path
  | [], path => by rw [propertyTerms, propertyTerms, map_pure, Term.respelledProperties]
  | (key, node) :: rest, path => by
    rw [propertyTerms, propertyTerms]
    simp only [term_respelled h node, propertyTerms_respelled h rest, map_bind, bind_map_left,
      map_pure, Term.respelledProperties]

/-- The terms of options differ by the spelling of identifiers alone. -/
theorem optionTerms_respelled (h : s.Respells f t) :
    ∀ (options : List Node) (index : Nat) (path : Key),
      (⟨registry, s, progress⟩ : Context).optionTerms index options path =
        Term.respelledOptions f <$>
          (⟨registry, t, progress⟩ : Context).optionTerms index options path
  | [], index, path => by rw [optionTerms, optionTerms, map_pure, Term.respelledOptions]
  | option :: rest, index, path => by
    rw [optionTerms, optionTerms]
    simp only [term_respelled h option, optionTerms_respelled h rest, map_bind, bind_map_left,
      map_pure, Term.respelledOptions]

end

end Context

namespace Registry

variable {registry : Registry} {s t : Settings} {f : Text → Text}

/-- A declaration differs by the spelling of identifiers alone. -/
theorem declare_respelled (h : s.Respells f t) (progress : Progress) (name : Key) (entry : Node) :
    registry.declare s progress name entry =
      Declaration.respelled f <$> registry.declare t progress name entry := by
  unfold declare
  simp only [Context.term_respelled h, Context.identifier_respelled h, map_bind, bind_map_left,
    map_pure, Declaration.respelled]

/-- Declarations differ by the spelling of identifiers alone. -/
theorem declarations_respelled (h : s.Respells f t) (order : List Key) (progress : Progress)
    (resolved : List Ref) : registry.declarations s order progress resolved =
      List.map (Declaration.respelled f) <$> registry.declarations t order progress resolved := by
  induction order generalizing progress resolved with
  | nil => rfl
  | cons name rest ih =>
    rw [declarations, declarations]
    split
    · simp only [map_bind, Traced.map_fail]
    · next entry _ =>
      split
      · exact ih progress resolved
      · simp only [declare_respelled h, Traced.events_map, ih, map_bind, bind_map_left, map_pure,
          List.map_cons]

/-- A file in a given order differs by the spelling of identifiers alone. -/
theorem fileInOrder_respelled (h : s.Respells f t) (resolved : List Ref) (order : List Key) :
    registry.fileInOrder s resolved order =
      CodeFile.respelled f <$> registry.fileInOrder t resolved order := by
  unfold fileInOrder
  rw [declarations_respelled h, h.module]
  simp only [map_bind, bind_map_left, map_pure, CodeFile.respelled]

/-- The file of all entries differs by the spelling of identifiers alone. -/
theorem file_respelled (h : s.Respells f t) :
    registry.file s = CodeFile.respelled f <$> registry.file t := by
  unfold file
  simp only [fileInOrder_respelled h, map_bind]

end Registry

/-- The code for a document and the notes depend on the identifiers and the module alone. -/
theorem generate_eq_of_respells {s t : Settings} (h : s.Respells id t) (document : Value) :
    generate document s = generate document t := by
  have hid : CodeFile.respelled id = id := funext CodeFile.respelled_id
  have hfile : ∀ registry : Registry, registry.file s = registry.file t := by
    intro registry
    rw [Registry.file_respelled h, hid, id_map]
  unfold generate generateFile
  simp only [hfile]

/-- The code for a document and the notes do not depend on the output settings. -/
theorem generate_withOutput (document : Value) (settings : Settings) (output : OutputEntry) :
    generate document { settings with output := output } = generate document settings :=
  generate_eq_of_respells (settings.respells_withOutput output) document

end ZodSchemas
