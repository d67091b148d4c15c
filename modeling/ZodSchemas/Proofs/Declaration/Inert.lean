import ZodSchemas.Proofs.Conversion.Accounting
import ZodSchemas.Proofs.Conversion.Independence
import ZodSchemas.Proofs.Conversion.Readable
import ZodSchemas.Proofs.Declaration.Agreement

/-!
# What is not read has no influence

Two documents whose definitions have the same names and look alike have the same
registry: the same names in the same order, each standing for the same node. So
their code is the same, and so are the notes on the way and the verdict on every
value. The rest of the documents may be anything, and so may whatever stands
under a keyword that is not read, at any depth.
-/

namespace ZodSchemas

/-- Definitions with the same names in the same order, each like its counterpart. -/
def AreAlikeByName (definitions others : Value) : Prop :=
  definitions.AgreeIn (AgreeByName Value.AreAlike) others

namespace AreAlikeByName

variable {definitions others : Value}

/-- Both are mappings or none is. -/
theorem exists_entries (h : AreAlikeByName definitions others) {entries : Entries Value}
    (he : definitions.entries? = some entries) : ∃ listed, others.entries? = some listed := by
  cases h with
  | same hn => simp [he] at hn
  | entries _ hl _ => exact ⟨_, hl⟩

/-- A name has definitions that are alike, or none in both. -/
theorem definition? (h : AreAlikeByName definitions others) (name : Key) :
    SameOutcome (fun a b => Option.Rel Value.AreAlike (a.map .map) (b.map .map))
      (Reference.definition? definitions name) (Reference.definition? others name) := by
  have hfield : SameOutcome (Option.Rel Value.AreAlike) (definitions.field? name)
      (others.field? name) := h.entriesOf.bind fun _ _ hst => .ok (hst.find? name)
  refine hfield.bind fun a b hab => .ok ?_
  cases hab with
  | none => exact .none
  | @some v w hvw =>
    cases isLikeness_areAlike v w hvw with
    | same hn => simp [hn]
    | entries hv hw hst => simpa [hv, hw] using Option.Rel.some (areAlike_of_lookAlike hst)

/-- The same names have definitions. -/
theorem definesAlike (h : AreAlikeByName definitions others) : definitions.DefinesAlike others := by
  intro t
  have ho := h.definition? (.text t)
  unfold Value.Defines
  generalize Reference.definition? definitions (.text t) = x at ho ⊢
  generalize Reference.definition? others (.text t) = y at ho ⊢
  cases ho with
  | error fault => simp
  | @ok a b hab =>
    cases a with
    | none =>
      cases b with
      | none => rfl
      | some t => cases hab
    | some s =>
      cases b with
      | none => cases hab
      | some t => simp

/-- The names with definitions come in the same order. -/
theorem definedNames_eq (h : AreAlikeByName definitions others) :
    Converter.definedNames definitions = Converter.definedNames others := by
  cases h with
  | same _ => rfl
  | @entries _ s t hv hw hst =>
    unfold Converter.definedNames
    rw [hv, hw]
    simp only [Option.getD_some]
    clear hv hw
    induction hst with
    | nil => rfl
    | @cons e f s t hef _ ih =>
      obtain ⟨name, v⟩ := e
      obtain ⟨_, w⟩ := f
      obtain ⟨rfl, hvw⟩ := hef
      have hsome : v.entries?.isSome = w.entries?.isSome := by
        cases isLikeness_areAlike v w hvw with
        | same hn => rfl
        | entries hv hw _ => rw [hv, hw]; rfl
      rw [List.filterMap_cons, List.filterMap_cons, hsome, ih]

end AreAlikeByName

section Documents

variable {document changed : Value} {c other : Converter}

/-- References in documents whose definitions are alike stand for the same, by the same
conversions. -/
theorem conversionOf_alike (hc : convertDocument document = .ok c)
    (ho : convertDocument changed = .ok other) (hd : AreSchemas IsReadable c.definitions)
    (h : AreAlikeByName c.definitions other.definitions) :
    c.conversionOf = other.conversionOf := by
  funext ref
  have hreference : ∀ target, c.source.reference target = other.source.reference target := by
    intro target
    obtain ⟨entries, he, -⟩ := hd.mapping
    have hround : c.source.round = other.source.round := Converter.round_eq hc ho
    obtain ⟨listed, hl⟩ := h.exists_entries he
    exact Source.reference_eq_of_definesAlike hround he hl h.definesAlike target
  have hreaches : (c.conversionOf ref).Reaches (other.conversionOf ref) := by
    refine (h.definition? ref.name).reaches fun a b hab => ?_
    match a, b, hab with
    | none, none, _ => rfl
    | some _, some _, .some halike => exact Source.convert_alike hreference halike
  refine (hreaches ?_).symm
  obtain ⟨node, hnode⟩ := hd.exists_conversionOf ref
  simp [hnode]

/-- Documents whose definitions are alike have the same registry. -/
theorem registry_alike (hc : convertDocument document = .ok c)
    (ho : convertDocument changed = .ok other) (hd : AreSchemas IsReadable c.definitions)
    (h : AreAlikeByName c.definitions other.definitions) : c.registry = other.registry := by
  have hentries : c.entries = other.entries := by
    rw [Converter.entries_of_convertDocument hc, Converter.entries_of_convertDocument ho,
      h.definedNames_eq, Converter.round_eq hc ho]
  unfold Converter.registry
  rw [hentries, h.definedNames_eq, Converter.round_eq hc ho, conversionOf_alike hc ho hd h]

/-- Documents whose definitions are alike have the same files and the same notes. -/
theorem generateFile_alike (hc : convertDocument document = .ok c)
    (ho : convertDocument changed = .ok other) (hd : AreSchemas IsReadable c.definitions)
    (h : AreAlikeByName c.definitions other.definitions) (settings : Settings) :
    generateFile document settings = generateFile changed settings := by
  have hstart : c.SameNotes other := by
    obtain ⟨-, hconverted, hmissing⟩ := Converter.fresh_of_convertDocument hc
    obtain ⟨-, hconverted', hmissing'⟩ := Converter.fresh_of_convertDocument ho
    exact ⟨hconverted.trans hconverted'.symm, hmissing.trans hmissing'.symm⟩
  have hnotes : ∀ refs : List Ref, (c.followAll refs).SameNotes (other.followAll refs) :=
    fun _ => hstart.followAll fun ref _ => congrFun (conversionOf_alike hc ho hd h) ref
  simp only [generateFile, hc, ho, Converter.run, Converter.warnings,
    registry_alike hc ho hd h, (hnotes _).missing]

end Documents

/-- Where the definitions of a document can be read and none is inside itself, a document with
definitions of the same names that look alike has the same code with the same notes, and the same
names, under each of which every value is parsed with the same result. -/
theorem unread_content_is_inert {document changed definitions others : Value}
    (hdoc : definitionsOf document = .ok definitions)
    (hchanged : definitionsOf changed = .ok others) (hd : AreSchemas IsReadable definitions)
    (h : AreAlikeByName definitions others) :
    (∀ settings, generate document settings = generate changed settings) ∧
      ∃ c other, convertDocument document = .ok c ∧ convertDocument changed = .ok other ∧
        c.registry.entries = other.registry.entries ∧
        ∀ name node value, Entries.find? name c.registry.entries = some node →
          parse c.registry node value = parse other.registry node value := by
  obtain ⟨entries, he, -⟩ := hd.mapping
  obtain ⟨c, hc, rfl⟩ := Converter.exists_convertDocument hdoc he
  obtain ⟨listed, hl⟩ := h.exists_entries he
  obtain ⟨other, ho, rfl⟩ := Converter.exists_convertDocument hchanged hl
  have hregistry := registry_alike hc ho hd h
  refine ⟨fun settings => ?_, c, other, hc, ho, by rw [hregistry], fun name node value _ => by
    rw [hregistry]⟩
  unfold generate
  rw [generateFile_alike hc ho hd h]

/-- A schema of lists of anything. -/
def listsSchema : Entries Value := [("type", "array"), ("items", .map [])]

/-- The same schema with annotations beside its keywords, which come in another order, and in the
schema of the elements. -/
def annotatedSchema : Entries Value :=
  [("items", .map [("description", "Anything")]), ("example", .list []), ("type", "array")]

/-- A document with another section, and with annotations in its only definition. -/
def annotatedDocument : Value :=
  .map [("info", .map [("title", "Lists")]),
    ("components", .map [("schemas", .map [("Lists", .map annotatedSchema)])])]

/-- The annotations make no difference to the schema. -/
theorem areAlike_annotated : (Value.map listsSchema).AreAlike (.map annotatedSchema) := by
  have description : ∀ keyword ∈ readKeywords,
      (Key.text "description").same (.text keyword) = false := by decide
  have annotation : ∀ keyword ∈ readKeywords,
      (Key.text "example").same (.text keyword) = false := by decide
  have hempty : LookAlike Value.AreAlike [] [("description", "Anything")] :=
    @LookAlike.insert _ _ [] [] (LookAlike.refl []) _ description _
  have hitems : LookAlike Value.AreAlike listsSchema
      [("type", "array"), ("items", .map [("description", "Anything")])] :=
    LookAlike.replace (by decide) (fun hm => absurd hm (by decide))
      (fun hp => absurd hp (by decide)) (fun _ => areAlike_of_lookAlike hempty) [_] []
  have hinserted := @LookAlike.insert _ _ [_] [_] hitems _ annotation (.list [])
  have hdiffer : KeysDiffer ["type", "example", "items"] := by
    unfold KeysDiffer
    decide
  exact areAlike_of_lookAlike (hinserted.reorder hdiffer (List.reverse_perm _).symm)

/-- The schema of lists can be read, and is not inside itself. -/
theorem isReadable_lists : Throughout IsReadable listsSchema ∧ Acc Inside listsSchema := by
  have hempty : Throughout IsReadable [] ∧ Acc Inside [] :=
    throughout_of_flat (by constructor <;> simp [Entries.find?]) fun _ _ => rfl
  -- Only two keywords are there.
  have hnone : ∀ keyword ∈ (["$ref", "properties", "required", "enum"] : List Text) ++
      memberKeywords, Entries.find? (.text keyword) listsSchema = none := by decide
  have hinside : ∀ sub, Inside sub listsSchema → sub = [] := by
    intro sub hi
    cases hi with
    | member hk hl _ _ =>
      obtain ⟨v, hv, -⟩ := hl
      simp [hnone _ (List.mem_append_right _ hk)] at hv
    | property hv _ _ _ => simp [hnone "properties" (by simp)] at hv
    | items hv hs =>
      obtain rfl := Option.some.inj hv
      exact (Option.some.inj hs).symm
  refine ⟨.of_parts ?_ fun sub hi => hinside sub hi ▸ hempty.1,
    .intro _ fun sub hi => hinside sub hi ▸ hempty.2⟩
  constructor
  case members =>
    exact fun keyword hk => forall_of_find?_eq_none (hnone keyword (List.mem_append_right _ hk))
  case items =>
    intro v hv
    obtain rfl := Option.some.inj hv
    exact ⟨[], rfl⟩
  all_goals exact forall_of_find?_eq_none (hnone _ (by decide))

/-- The annotations do not show in the code, although an empty schema of elements is not converted
at all and an annotated one is. -/
theorem unread_content_is_inert_lists : ∃ definitions others,
    definitionsOf (documentWith [("Lists", .map listsSchema)]) = .ok definitions ∧
      definitionsOf annotatedDocument = .ok others ∧ AreSchemas IsReadable definitions ∧
      AreAlikeByName definitions others ∧
      generate (documentWith [("Lists", .map listsSchema)]) {} = generate annotatedDocument {} := by
  have hschemas : AreSchemas IsReadable (.map [("Lists", .map listsSchema)]) :=
    ⟨_, rfl, List.forall_mem_singleton.mpr ⟨⟨_, rfl⟩, _, rfl, isReadable_lists⟩⟩
  have halike : AreAlikeByName (.map [("Lists", .map listsSchema)])
      (.map [("Lists", .map annotatedSchema)]) :=
    .entries rfl rfl (.cons ⟨rfl, areAlike_annotated⟩ .nil)
  exact ⟨_, _, rfl, rfl, hschemas, halike, (unread_content_is_inert rfl rfl hschemas halike).1 {}⟩

end ZodSchemas
