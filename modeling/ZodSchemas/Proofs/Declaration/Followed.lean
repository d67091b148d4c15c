import ZodSchemas.Proofs.Conversion.Accounting
import ZodSchemas.Proofs.Declaration.Agreement
import ZodSchemas.Proofs.Declaration.Placement
import ZodSchemas.Proofs.Records

/-!
# The references that code follows

The term of a node follows no references but those of the node, since only the
options of a union are looked behind. So what is followed for declarations are
the entries and what their bodies refer to, and where a registry is closed these
are references of the registry. All of them are followed for the dependencies
already, and what was followed once is not accounted for again: the notes for a
document are those of its definitions, each converted once.
-/

namespace ZodSchemas

namespace Context

open Traced

variable {p : Ref → Prop}

/-- Writing a value follows nothing. -/
theorem records_written (t : Except Fault Text) : Records p (written t) :=
  (records_ofExcept t).mapError

/-- The identifier of a name follows nothing. -/
theorem records_identifier (c : Context) (name : Key) : Records p (c.identifier name) :=
  (records_ofExcept _).mapError

/-- A path follows nothing. -/
theorem records_subpath (path : Key) (step : Text) : Records p (subpath path step) :=
  (records_written _).bind fun _ _ => records_pure _

/-- Literals follow nothing. -/
theorem records_literals (values : List Value) : Records p (literals values) := by
  induction values with
  | nil => exact records_pure _
  | cons v rest ih =>
    exact (records_written _).bind fun _ _ => ih.bind fun _ _ => records_pure _

/-- Checks follow nothing. -/
theorem records_checkCalls (path : Key) (checks : List Check) :
    Records p (checkCalls path checks) := by
  have call : ∀ check, Records p (checkCall path check) := by
    intro check
    unfold checkCall
    split
    · exact (records_written _).bind fun _ _ => records_pure _
    · exact (records_written _).bind fun _ _ => records_pure _
    · exact records_pure _
    · have hplace : Records p (placeText path) := by
        unfold placeText
        split
        · exact records_written _
        · exact records_pure _
      exact hplace.bind fun _ _ => records_fail _
  induction checks with
  | nil => exact records_pure _
  | cons check rest ih =>
    exact (call check).bind fun _ _ => ih.bind fun _ _ => records_pure _

/-- A union of terms follows nothing. -/
theorem records_unionTerm (key : Option Key) (options : List Term) :
    Records p (unionTerm key options) := by
  unfold unionTerm
  split
  · exact (records_written _).bind fun _ _ => records_pure _
  · exact records_pure _

/-- Whether an option is an object is asked by following the option. -/
theorem records_optionProperties (c : Context) {option : Node} (h : ∀ ref ∈ option.refs, p ref) :
    Records p (c.optionProperties option) := by
  unfold optionProperties
  split
  · next ref =>
    have hr : p ref := h ref (List.mem_singleton_self ref)
    split
    · refine Records.bind ?_ fun body _ => ?_
      · exact ((records_emit hr).bind fun _ _ => records_ofExcept _).mapError
      · split
        · exact records_pure _
        · exact records_pure _
    · exact records_pure _
  · exact records_pure _
  · exact records_pure _

/-- The key of options is looked for by following references to them. -/
theorem records_discriminatorFrom (c : Context) {options : List Node} {key : Option Key}
    {seen : List Value} (h : ∀ ref ∈ Node.optionRefs options, p ref) :
    Records p (c.discriminatorFrom key seen options) := by
  induction options generalizing key seen with
  | nil => exact records_pure _
  | cons option rest ih =>
    have hfirst := records_optionProperties c fun ref hm => h ref (List.mem_append_left _ hm)
    have hrest := fun key seen => @ih key seen fun ref hm => h ref (List.mem_append_right _ hm)
    rw [discriminatorFrom]
    refine hfirst.bind fun found _ => ?_
    split
    · exact records_pure _
    · split
      · split
        · split
          · exact records_pure _
          · exact hrest _ _
        · exact records_pure _
      · exact records_pure _

/-- Options are told apart by following references to them. -/
theorem records_discriminator (c : Context) {options : List Node}
    (h : ∀ ref ∈ Node.optionRefs options, p ref) : Records p (c.discriminator options) := by
  unfold discriminator
  split
  · exact records_pure _
  · exact records_discriminatorFrom c h

mutual

/-- The term of a node follows references of the node. -/
theorem records_term (c : Context) : ∀ (node : Node) (path : Key), (∀ ref ∈ node.refs, p ref) →
    Records p (c.term node path)
  | .lazy ref, path, h => by
    rw [term]
    refine Records.bind ?_ fun _ _ => records_pure _
    exact (records_identifier c _).bind fun _ _ => records_pure _
  | .object properties required, path, h => by
    rw [term]
    exact (records_propertyTerms c properties path h).bind fun _ _ => records_pure _
  | .array element, path, h => by
    rw [term]
    refine (records_subpath path _).bind fun place _ => ?_
    exact (records_term c element place h).bind fun _ _ => records_pure _
  | .union options, path, h => by
    rw [term]
    refine (records_optionTerms c options 0 path h).bind fun _ _ => ?_
    exact (records_discriminator c h).bind fun _ _ => records_unionTerm _ _
  | .nullable inner, path, h => by
    rw [term]
    exact (records_term c inner path h).bind fun _ _ => records_pure _
  | .optional inner, path, h => by
    rw [term]
    exact (records_term c inner path h).bind fun _ _ => records_pure _
  | .string checks, path, h => by
    rw [term]
    exact (records_checkCalls path checks).bind fun _ _ => records_pure _
  | .enum [], path, h => (records_literals []).bind fun _ _ => records_pure _
  | .enum [v], path, h => by
    rw [term]
    exact (records_written _).bind fun _ _ => records_pure _
  | .enum (v :: w :: values), path, h =>
    (records_literals (v :: w :: values)).bind fun _ _ => records_pure _
  | .literal v, path, h => by
    rw [term]
    exact (records_written _).bind fun _ _ => records_pure _
  | .number, path, h | .boolean, path, h | .never, path, h | .unknown, path, h
  | .plain, path, h => by
    rw [term]
    exact records_pure _

/-- The terms of properties follow references of the properties. -/
theorem records_propertyTerms (c : Context) : ∀ (properties : List (Key × Node)) (path : Key),
    (∀ ref ∈ Node.propertyRefs properties, p ref) → Records p (c.propertyTerms properties path)
  | [], path, h => by
    rw [propertyTerms]
    exact records_pure _
  | (key, node) :: rest, path, h => by
    have hfirst := fun place => records_term c node place fun ref hm =>
      h ref (List.mem_append_left _ hm)
    have hrest := records_propertyTerms c rest path fun ref hm => h ref (List.mem_append_right _ hm)
    rw [propertyTerms]
    refine (records_written _).bind fun _ _ => (records_written _).bind fun _ _ => ?_
    refine (records_subpath path _).bind fun place _ => (hfirst place).bind fun _ _ => ?_
    exact hrest.bind fun _ _ => records_pure _

/-- The terms of options follow references of the options. -/
theorem records_optionTerms (c : Context) : ∀ (options : List Node) (index : Nat) (path : Key),
    (∀ ref ∈ Node.optionRefs options, p ref) → Records p (c.optionTerms index options path)
  | [], index, path, h => by
    rw [optionTerms]
    exact records_pure _
  | option :: rest, index, path, h => by
    have hfirst := fun place => records_term c option place fun ref hm =>
      h ref (List.mem_append_left _ hm)
    have hrest := records_optionTerms c rest (index + 1) path fun ref hm =>
      h ref (List.mem_append_right _ hm)
    rw [optionTerms]
    refine (records_subpath path _).bind fun place _ => (hfirst place).bind fun _ _ => ?_
    exact hrest.bind fun _ _ => records_pure _

end

end Context

namespace Registry

open Traced

variable {registry : Registry} {settings : Settings} {p : Ref → Prop}

/-- An entry is followed when the entry itself is a reference. -/
theorem records_bodyOf {entry : Node} (h : ∀ ref ∈ entry.refs, p ref) :
    Records p (registry.bodyOf entry) := by
  cases entry with
  | lazy ref =>
    exact (records_emit (h ref (List.mem_singleton_self ref))).bind fun _ _ => records_ofExcept _
  | _ => exact records_pure _

/-- A declaration follows its entry and what the body refers to. -/
theorem records_declare {progress : Progress} {name : Key} {entry : Node}
    (he : ∀ ref ∈ entry.refs, p ref)
    (hb : ∀ body, (registry.bodyOf entry).outcome = .ok body → ∀ ref ∈ body.refs, p ref) :
    Records p (registry.declare settings progress name entry) := by
  refine (records_bodyOf he).mapError.bind fun body hbody => ?_
  have hrefs := hb body (Traced.mapError_eq_ok.mp hbody)
  refine (Context.records_term _ body name hrefs).bind fun _ _ => ?_
  exact (Context.records_identifier _ _).bind fun _ _ => records_pure _

/-- The declarations of entries follow the entries and what their bodies refer to. -/
theorem records_declarations {order : List Key} {progress : Progress} {resolved : List Ref}
    (h : ∀ name ∈ order, ∃ entry, Entries.find? name registry.entries = some entry ∧
      (∀ ref ∈ entry.refs, p ref) ∧
      ∀ body, (registry.bodyOf entry).outcome = .ok body → ∀ ref ∈ body.refs, p ref) :
    Records p (registry.declarations settings order progress resolved) := by
  induction order generalizing progress resolved with
  | nil => exact records_pure _
  | cons name rest ih =>
    obtain ⟨entry, hf, he, hb⟩ := h name (by simp)
    have hrest := fun progress resolved => @ih progress resolved fun k hk =>
      h k (List.mem_cons_of_mem _ hk)
    have hafter : registry.entryAfter? resolved name = some entry := by simp [entryAfter?, hf]
    rw [declarations]
    simp only [hafter]
    split
    · exact hrest _ _
    · exact (records_declare he hb).bind fun _ _ => (hrest _ _).bind fun _ _ => records_pure _

/-- For the dependencies of entries that defer to references each of these is followed once. -/
theorem events_dependenciesFrom {entries : Entries Ref} {map : DependencyMap}
    (h : (dependenciesFrom registry (entries.map fun (name, ref) => (name, .lazy ref))).outcome =
      .ok map) :
    (dependenciesFrom registry (entries.map fun (name, ref) => (name, .lazy ref))).events =
      entries.map (·.2) := by
  induction entries generalizing map with
  | nil => rfl
  | cons e rest ih =>
    obtain ⟨name, ref⟩ := e
    rw [List.map_cons, dependenciesFrom] at h ⊢
    obtain ⟨body, hb, h⟩ := Traced.bind_eq_ok.mp h
    obtain ⟨others, ho, -⟩ := Traced.bind_eq_ok.mp h
    have hfirst : (registry.bodyOf (.lazy ref)).events = [ref] := by
      rw [bodyOf, resolve, events_bind rfl]
      rfl
    rw [events_bind hb, events_bind ho, ih ho, hfirst, List.map_cons]
    simp

/-- For a file the dependencies are followed first, and then the declarations. -/
theorem events_file {map : DependencyMap} {ds : List Declaration}
    (hm : (dependenciesOf registry).outcome = .ok map)
    (hds : (registry.declarations settings (sequence map) {}
      (dependenciesOf registry).events).outcome = .ok ds) :
    (registry.file settings).events = (dependenciesOf registry).events ++
      (registry.declarations settings (sequence map) {}
        (dependenciesOf registry).events).events := by
  have hmap : (Following.asRendering (dependenciesOf registry)).outcome = .ok map :=
    Traced.mapError_eq_ok.mpr hm
  have hmodule : (Context.written settings.module.plain >>= fun module =>
      (pure ⟨module, ds⟩ : Rendering CodeFile)).events = [] :=
    List.eq_nil_iff_forall_not_mem.mpr <|
      (Context.records_written (p := fun _ => False) _).bind fun _ _ => records_pure _
  unfold file fileInOrder
  rw [events_bind hmap]
  change _ ++ (registry.declarations settings (sequence map) {} (dependenciesOf registry).events >>=
    _).events = _
  rw [events_bind hds, hmodule, List.append_nil]
  rfl

end Registry

section Notes

variable {document : Value} {settings : Settings} {c : Converter} {entries : Entries Value}

/-- The declarations of a document follow the references to its definitions. -/
theorem records_refs (hc : convertDocument document = .ok c) {map : DependencyMap}
    (hm : (dependenciesOf c.registry).outcome = .ok map) {progress : Progress}
    {resolved : List Ref} (hr : ∀ e ∈ c.entries, e.2 ∈ c.registry.refs) :
    Traced.Records (· ∈ c.registry.refs)
      (c.registry.declarations settings (sequence map) progress resolved) := by
  refine Registry.records_declarations fun name hn => ?_
  obtain ⟨ref, hin, hf⟩ := Registry.exists_entry_of_mem_sequence hc hm hn
  refine ⟨.lazy ref, hf, fun r h => ?_, fun body hb => ?_⟩
  · rw [List.mem_singleton.mp h]
    exact hr (name, ref) hin
  · exact Converter.registry_isClosed c ref body (Registry.resolve_eq_ok.mp hb)

/-- The entries of a document that defines different names are the references to the names. -/
theorem entries_eq_refs (hc : convertDocument document = .ok c)
    (he : c.definitions.entries? = some entries) (hd : KeysDiffer (Entries.keys entries)) :
    c.entries.map (·.2) = c.registry.refs := by
  rw [Converter.entries_eq_map hc he hd, List.map_map]
  rfl

/-- Where there are dependencies, every defined name was converted. -/
theorem exists_conversion_of_mem_refs (hc : convertDocument document = .ok c)
    (he : c.definitions.entries? = some entries) (hd : KeysDiffer (Entries.keys entries))
    {map : DependencyMap} (hm : (dependenciesOf c.registry).outcome = .ok map) :
    ∀ ref ∈ c.registry.refs, ∃ node, (c.conversionOf ref).outcome = .ok node := by
  intro ref hr
  rw [← entries_eq_refs hc he hd] at hr
  obtain ⟨e, he, rfl⟩ := List.mem_map.mp hr
  obtain ⟨body, hb⟩ := Registry.exists_dependencies_iff.mp ⟨map, hm⟩ _ (List.mem_map_of_mem he)
  exact ⟨body, Registry.resolve_eq_ok.mp hb⟩

/-- The notes that arise for a document with code are those of its definitions, each converted
once. -/
theorem notes_of_generateFile (hc : convertDocument document = .ok c)
    (he : c.definitions.entries? = some entries) (hd : KeysDiffer (Entries.keys entries))
    {file : CodeFile} (hf : (generateFile document settings).1 = .ok file) :
    (generateFile document settings).2 = (c.followAll c.registry.refs).warnings := by
  obtain ⟨map, hm, hds, -⟩ := (generateFile_eq_ok hc).mp hf
  have hentries := entries_eq_refs hc he hd
  have hfollowed : (dependenciesOf c.registry).events = c.registry.refs :=
    (Registry.events_dependenciesFrom hm).trans hentries
  have hnotes : (generateFile document settings).2 =
      (c.followAll (c.registry.file settings).events).warnings := by
    unfold generateFile
    simp only [hc, Converter.run]
  have hconverted : c.registry.refs ⊆ (c.followAll c.registry.refs).converted :=
    (Converter.followAll_spec c _).2 (exists_conversion_of_mem_refs hc he hd hm)
  have hrecords : Traced.Records (· ∈ c.registry.refs)
      (c.registry.declarations settings (sequence map) {} c.registry.refs) :=
    records_refs hc hm fun e he => hentries ▸ List.mem_map_of_mem he
  rw [hnotes, Registry.events_file hm hds, hfollowed, Converter.followAll_append]
  exact congrArg Converter.warnings
    (Converter.followAll_eq_self fun ref hr => hconverted (hrecords ref hr))

end Notes

end ZodSchemas
