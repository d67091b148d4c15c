import ZodSchemas.Declaration.File

/-!
# Declarations that agree

The term of a node depends on the registry and on how far the declarations have
come only through the references of the node. So registries that agree about
the names of an order write the same declarations for it, whatever else they
hold.
-/

namespace ZodSchemas

/-- Computations that go on alike after every value are the same. -/
theorem Traced.bind_congr {ω ε α β : Type} {x : Traced ω ε α} {f g : α → Traced ω ε β}
    (h : ∀ a, x.outcome = .ok a → f a = g a) : x >>= f = x >>= g := by
  obtain ⟨events, outcome⟩ := x
  cases outcome with
  | error e => rfl
  | ok a => rw [bind_ok, bind_ok, h a rfl]

namespace Context

variable {c other : Context}

/-- Two contexts agree about some references. -/
structure AgreesOn (c other : Context) (refs : List Ref) : Prop where
  /-- The settings are the same. -/
  settings : c.settings = other.settings
  /-- The references stand for the same. -/
  body : ∀ ref ∈ refs, c.registry.body ref = other.registry.body ref
  /-- The same ones are declared. -/
  isDeclared : ∀ ref ∈ refs,
    c.progress.isDeclared ref.name = other.progress.isDeclared ref.name

/-- Contexts that agree about some references agree about some of them. -/
theorem AgreesOn.mono {refs some : List Ref} (h : c.AgreesOn other refs) (hs : some ⊆ refs) :
    c.AgreesOn other some :=
  ⟨h.settings, fun ref hr => h.body ref (hs hr), fun ref hr => h.isDeclared ref (hs hr)⟩

/-- An option counts as the same object in contexts that agree about its references. -/
theorem optionProperties_congr {option : Node} (h : c.AgreesOn other option.refs) :
    c.optionProperties option = other.optionProperties option := by
  cases option with
  | lazy ref =>
    have hm : ref ∈ (Node.lazy ref).refs := List.mem_singleton_self ref
    simp only [optionProperties, Registry.resolve, h.body ref hm, h.isDeclared ref hm]
  | _ => rfl

/-- The same key is found for options in contexts that agree about their references. -/
theorem discriminatorFrom_congr {options : List Node}
    (h : c.AgreesOn other (Node.optionRefs options)) (key : Option Key) (seen : List Value) :
    c.discriminatorFrom key seen options = other.discriminatorFrom key seen options := by
  induction options generalizing key seen with
  | nil => rfl
  | cons option rest ih =>
    have hfirst := optionProperties_congr (h.mono (List.subset_append_left _ _))
    have hrest := ih (h.mono (List.subset_append_right _ _))
    simp only [discriminatorFrom, hfirst, hrest]

/-- A union is told apart by the same key in contexts that agree about its references. -/
theorem discriminator_congr {options : List Node}
    (h : c.AgreesOn other (Node.optionRefs options)) :
    c.discriminator options = other.discriminator options := by
  unfold discriminator
  rw [discriminatorFrom_congr h]

mutual

/-- A node has the same term in contexts that agree about its references. -/
theorem term_congr : ∀ (node : Node) (path : Key), c.AgreesOn other node.refs →
    c.term node path = other.term node path
  | .lazy ref, path, h => by
    have hm : ref ∈ (Node.lazy ref).refs := List.mem_singleton_self ref
    simp only [term, use, identifier, h.settings, h.isDeclared ref hm]
  | .object properties required, path, h => by
    rw [term, term, propertyTerms_congr properties path h]
  | .array element, path, h => by
    rw [term, term]
    simp only [term_congr element _ h]
  | .union options, path, h => by
    rw [term, term, optionTerms_congr options 0 path h, discriminator_congr h]
  | .nullable inner, path, h => by
    rw [term, term, term_congr inner path h]
  | .optional inner, path, h => by
    rw [term, term, term_congr inner path h]
  | .enum [], path, h => by rfl
  | .enum [v], path, h => by rw [term, term]
  | .enum (v :: w :: values), path, h => by rfl
  | .string checks, path, h => by rw [term, term]
  | .literal v, path, h => by rw [term, term]
  | .number, path, h | .boolean, path, h | .never, path, h | .unknown, path, h
  | .plain, path, h => by rw [term, term]

/-- Properties have the same terms in contexts that agree about their references. -/
theorem propertyTerms_congr : ∀ (properties : List (Key × Node)) (path : Key),
    c.AgreesOn other (Node.propertyRefs properties) →
    c.propertyTerms properties path = other.propertyTerms properties path
  | [], path, h => by rw [propertyTerms, propertyTerms]
  | (key, node) :: rest, path, h => by
    have hrest := propertyTerms_congr rest path (h.mono (List.subset_append_right _ _))
    have hfirst := fun place => term_congr node place (h.mono (List.subset_append_left _ _))
    simp only [propertyTerms, hfirst, hrest]

/-- Options have the same terms in contexts that agree about their references. -/
theorem optionTerms_congr : ∀ (options : List Node) (index : Nat) (path : Key),
    c.AgreesOn other (Node.optionRefs options) →
    c.optionTerms index options path = other.optionTerms index options path
  | [], index, path, h => by rw [optionTerms, optionTerms]
  | option :: rest, index, path, h => by
    have hrest := optionTerms_congr rest (index + 1) path
      (h.mono (List.subset_append_right _ _))
    have hfirst := fun place => term_congr option place (h.mono (List.subset_append_left _ _))
    simp only [optionTerms, hfirst, hrest]

end

end Context

namespace Registry

variable {registry other : Registry} {settings : Settings}

/-- There are dependencies when every entry has a body. -/
theorem exists_dependencies_iff {entries : Entries Node} :
    (∃ map, (dependenciesFrom registry entries).outcome = .ok map) ↔
      ∀ e ∈ entries, ∃ body, (registry.bodyOf e.2).outcome = .ok body := by
  induction entries with
  | nil => simp [dependenciesFrom]
  | cons e rest ih =>
    obtain ⟨name, entry⟩ := e
    rw [List.forall_mem_cons, ← ih, dependenciesFrom]
    constructor
    · rintro ⟨map, h⟩
      obtain ⟨body, hb, h⟩ := Traced.bind_eq_ok.mp h
      obtain ⟨others, ho, -⟩ := Traced.bind_eq_ok.mp h
      exact ⟨⟨body, hb⟩, others, ho⟩
    · rintro ⟨⟨body, hb⟩, others, ho⟩
      exact ⟨_, Traced.bind_eq_ok.mpr ⟨body, hb, Traced.bind_eq_ok.mpr ⟨others, ho, rfl⟩⟩⟩

/-- Entries that have the same bodies have the same dependencies. -/
theorem dependenciesFrom_congr {entries : Entries Node}
    (h : ∀ e ∈ entries, registry.bodyOf e.2 = other.bodyOf e.2) :
    dependenciesFrom registry entries = dependenciesFrom other entries := by
  induction entries with
  | nil => rfl
  | cons e rest ih =>
    obtain ⟨name, entry⟩ := e
    have hfirst : registry.bodyOf entry = other.bodyOf entry := h (name, entry) (by simp)
    rw [dependenciesFrom, dependenciesFrom, hfirst, ih fun e he => h e (List.mem_cons_of_mem _ he)]

/-- The dependencies of entries are those of the first ones and then those of the others. -/
theorem exists_of_dependenciesFrom_append {entries others : Entries Node} {map : DependencyMap}
    (h : (dependenciesFrom registry (entries ++ others)).outcome = .ok map) :
    ∃ front back, map = front ++ back ∧
      (dependenciesFrom registry entries).outcome = .ok front := by
  induction entries generalizing map with
  | nil => exact ⟨[], map, rfl, rfl⟩
  | cons e rest ih =>
    obtain ⟨name, entry⟩ := e
    rw [List.cons_append, dependenciesFrom] at h
    obtain ⟨body, hb, h⟩ := Traced.bind_eq_ok.mp h
    obtain ⟨found, hf, h⟩ := Traced.bind_eq_ok.mp h
    obtain rfl := Traced.pure_eq_ok.mp h
    obtain ⟨front, back, rfl, hfront⟩ := ih hf
    exact ⟨(name, body.dependencies) :: front, back, rfl,
      Traced.bind_eq_ok.mpr ⟨body, hb, Traced.bind_eq_ok.mpr ⟨front, hfront, rfl⟩⟩⟩

/-- An entry has the same declaration in registries that agree about its body and about the
references of that, which may be declared in whatever order they are. -/
theorem declare_congr {progress before : Progress} {name : Key} {entry : Node}
    (hb : registry.bodyOf entry = other.bodyOf entry)
    (hr : ∀ body, (registry.bodyOf entry).outcome = .ok body → ∀ ref ∈ body.refs,
      registry.body ref = other.body ref ∧
        (progress.start name).isDeclared ref.name = (before.start name).isDeclared ref.name) :
    registry.declare settings progress name entry = other.declare settings before name entry := by
  unfold declare
  rw [← hb]
  refine Traced.bind_congr fun body hbody => ?_
  have hrefs := hr body (Traced.mapError_eq_ok.mp hbody)
  have hagree : Context.AgreesOn ⟨registry, settings, progress.start name⟩
      ⟨other, settings, before.start name⟩ body.refs :=
    ⟨rfl, fun ref hm => (hrefs ref hm).1, fun ref hm => (hrefs ref hm).2⟩
  simp only [Context.term_congr body name hagree, Context.identifier]

/-- Two registries hold the same under a name and write the same declaration for it. -/
structure AgreesAt (registry other : Registry) (settings : Settings) (name : Key)
    (entry : Node) : Prop where
  /-- The first holds it. -/
  found : Entries.find? name registry.entries = some entry
  /-- The second holds it. -/
  foundToo : Entries.find? name other.entries = some entry
  /-- Both write it alike, however far the declarations have come. -/
  declare : ∀ progress, registry.declare settings progress name entry =
    other.declare settings progress name entry

/-- An order has the same declarations in registries that agree about its names. -/
theorem declarations_congr {order : List Key}
    (h : ∀ name ∈ order, ∃ entry, registry.AgreesAt other settings name entry)
    (progress : Progress) (resolved followed : List Ref) :
    registry.declarations settings order progress resolved =
      other.declarations settings order progress followed := by
  induction order generalizing progress resolved followed with
  | nil => rfl
  | cons name rest ih =>
    obtain ⟨entry, hentry⟩ := h name (by simp)
    have hrest := ih fun k hk => h k (List.mem_cons_of_mem _ hk)
    have hfirst : registry.entryAfter? resolved name = some entry := by
      simp [entryAfter?, hentry.found]
    have hsecond : other.entryAfter? followed name = some entry := by
      simp [entryAfter?, hentry.foundToo]
    rw [declarations, declarations]
    simp only [hfirst, hsecond, hentry.declare]
    split
    · exact hrest _ _ _
    · exact Traced.bind_congr fun d _ => by rw [hrest]

/-- The declarations of an order start with those of its front. -/
theorem exists_of_declarations_append {front back : List Key} {progress : Progress}
    {resolved : List Ref} {ds : List Declaration}
    (h : (registry.declarations settings (front ++ back) progress resolved).outcome = .ok ds) :
    ∃ first others, ds = first ++ others ∧
      (registry.declarations settings front progress resolved).outcome = .ok first := by
  induction front generalizing progress resolved ds with
  | nil => exact ⟨[], ds, rfl, rfl⟩
  | cons name rest ih =>
    rw [List.cons_append, declarations] at h
    rw [declarations]
    cases he : registry.entryAfter? resolved name with
    | none =>
      simp only [he] at h
      obtain ⟨t, -, h⟩ := Traced.bind_eq_ok.mp h
      simp at h
    | some entry =>
      simp only [he] at h ⊢
      split at h
      · next hn =>
        obtain ⟨first, others, hds, hfirst⟩ := ih h
        exact ⟨first, others, hds, by rw [if_pos hn]; exact hfirst⟩
      · next hn =>
        obtain ⟨d, hd, h⟩ := Traced.bind_eq_ok.mp h
        obtain ⟨more, hmore, h⟩ := Traced.bind_eq_ok.mp h
        obtain rfl := Traced.pure_eq_ok.mp h
        obtain ⟨first, others, rfl, hfirst⟩ := ih hmore
        refine ⟨d :: first, others, rfl, ?_⟩
        rw [if_neg hn]
        exact Traced.bind_eq_ok.mpr ⟨d, hd, Traced.bind_eq_ok.mpr ⟨first, hfirst, rfl⟩⟩

end Registry

/-- Texts start with those in front of them, put together in the same way. -/
theorem intercalate_isPrefix_append {α : Type} (separator : List α) (xs ys : List (List α)) :
    List.intercalate separator xs <+: List.intercalate separator (xs ++ ys) := by
  induction xs with
  | nil => exact List.nil_prefix
  | cons x rest ih =>
    cases rest with
    | nil =>
      cases ys with
      | nil => exact List.prefix_rfl
      | cons y ys =>
        rw [List.intercalate_singleton, List.singleton_append, List.intercalate_cons_cons,
          List.append_assoc]
        exact List.prefix_append _ _
    | cons next rest =>
      rw [List.cons_append, List.cons_append, List.intercalate_cons_cons,
        List.intercalate_cons_cons]
      exact (List.prefix_append_right_inj _).mpr ih

/-- Code starts with the code of the declarations in front. -/
theorem CodeFile.text_isPrefix_append {module : Text} (ds others : List Declaration) :
    (⟨module, ds⟩ : CodeFile).text <+: (⟨module, ds ++ others⟩ : CodeFile).text := by
  unfold text
  rw [List.map_append]
  exact (List.prefix_append_right_inj _).mpr (intercalate_isPrefix_append _ _ _)

/-- A document with some definitions. -/
def documentWith (definitions : Entries Value) : Value :=
  .map [("components", .map [("schemas", .map definitions)])]

/-- The code of a document is that of its file. -/
theorem generate_eq_ok {document : Value} {settings : Settings} {text : Text} :
    (generate document settings).1 = .ok text ↔
      ∃ file, (generateFile document settings).1 = .ok file ∧ file.text = text := by
  change (generateFile document settings).1.map CodeFile.text = .ok text ↔ _
  cases (generateFile document settings).1 with
  | error e => simp [Except.map]
  | ok file => simp [Except.map]

/-- A document that has a file has a converter. -/
theorem exists_convertDocument_of_generateFile {document : Value} {settings : Settings}
    {file : CodeFile} (h : (generateFile document settings).1 = .ok file) :
    ∃ c, convertDocument document = .ok c := by
  unfold generateFile at h
  cases hc : convertDocument document with
  | error fault => simp [hc] at h
  | ok c => exact ⟨c, rfl⟩

/-- The file of a document holds the declarations in the order of the dependencies. -/
theorem generateFile_eq_ok {document : Value} {settings : Settings} {c : Converter}
    {file : CodeFile} (hc : convertDocument document = .ok c) :
    (generateFile document settings).1 = .ok file ↔
      ∃ map, (dependenciesOf c.registry).outcome = .ok map ∧
        (c.registry.declarations settings (sequence map) {}
          (dependenciesOf c.registry).events).outcome = .ok file.declarations ∧
        settings.module.plain = .ok file.module := by
  have hmodule : ∀ t, (Context.written settings.module.plain).outcome = .ok t ↔
      settings.module.plain = .ok t := by
    intro t
    rw [Context.written, Following.asRendering, Traced.mapError_eq_ok, Traced.outcome_ofExcept]
  unfold generateFile
  simp only [hc, Converter.run, Registry.file, Registry.fileInOrder]
  constructor
  · intro h
    obtain ⟨map, hm, h⟩ := Traced.bind_eq_ok.mp h
    obtain ⟨ds, hds, h⟩ := Traced.bind_eq_ok.mp h
    obtain ⟨module, ht, h⟩ := Traced.bind_eq_ok.mp h
    obtain rfl := Traced.pure_eq_ok.mp h
    exact ⟨map, Traced.mapError_eq_ok.mp hm, hds, (hmodule _).mp ht⟩
  · rintro ⟨map, hm, hds, ht⟩
    refine Traced.bind_eq_ok.mpr ⟨map, Traced.mapError_eq_ok.mpr hm, ?_⟩
    exact Traced.bind_eq_ok.mpr ⟨_, hds, Traced.bind_eq_ok.mpr ⟨_, (hmodule _).mpr ht, rfl⟩⟩

/-- Code starts with the import from the module of the settings. -/
theorem exists_module_of_generate {document : Value} {settings : Settings} {text : Text}
    (h : (generate document settings).1 = .ok text) :
    ∃ module, settings.module.plain = .ok module ∧ importLine module <+: text := by
  obtain ⟨file, hf, rfl⟩ := generate_eq_ok.mp h
  obtain ⟨c, hc⟩ := exists_convertDocument_of_generateFile hf
  obtain ⟨-, -, -, hmodule⟩ := (generateFile_eq_ok hc).mp hf
  refine ⟨file.module, hmodule, ?_⟩
  rw [CodeFile.text, List.append_assoc]
  exact List.prefix_append _ _

end ZodSchemas
