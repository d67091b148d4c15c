import ZodSchemas.Proofs.Conversion.Dangling
import ZodSchemas.Proofs.Conversion.Registration
import ZodSchemas.Proofs.Declaration.Followed

/-!
# The notes on missing names

Where there is code, every definition was converted, once, in the order of the
definitions, and nothing else leaves a note. So the notes are those on the
dangling references that are met in the definitions, in order: one for each
time that one is met.
-/

namespace ZodSchemas

/-- The values of some definitions that define something, in order. -/
def mappingsOf (definitions : Entries Value) : List Value :=
  (Entries.values definitions).filter fun v => v.entries?.isSome

namespace Converter

variable {c : Converter}

/-- A reference that is converted for the first time leaves its missing names as notes. -/
theorem follow_of_not_converted {ref : Ref} {node : Node} (hn : ref ∉ c.converted)
    (h : (c.conversionOf ref).outcome = .ok node) :
    (c.follow ref).converted = ref :: c.converted ∧
      (c.follow ref).missing = c.missing ++ missingNames (c.conversionOf ref).events := by
  obtain ⟨-, hconverted, hmissing⟩ := noteAll_spec c (c.conversionOf ref).events
  unfold follow
  rw [if_neg hn]
  simp only [h]
  exact ⟨congrArg (ref :: ·) hconverted, hmissing⟩

/-- Different references that are converted for the first time leave their missing names as notes,
one after another. -/
theorem missing_followAll {refs : List Ref} (hd : refs.Nodup)
    (hn : ∀ ref ∈ refs, ref ∉ c.converted)
    (h : ∀ ref ∈ refs, ∃ node, (c.conversionOf ref).outcome = .ok node) :
    (c.followAll refs).missing =
      c.missing ++ refs.flatMap fun ref => missingNames (c.conversionOf ref).events := by
  induction refs generalizing c with
  | nil => exact (List.append_nil _).symm
  | cons ref rest ih =>
    obtain ⟨node, hnode⟩ := h ref (by simp)
    obtain ⟨hconverted, hmissing⟩ := follow_of_not_converted (hn ref (by simp)) hnode
    have hsame : (c.follow ref).conversionOf = c.conversionOf :=
      conversionOf_eq_of_source (follow_spec c ref).1.source
    obtain ⟨hne, hrest⟩ := List.nodup_cons.mp hd
    have hfresh : ∀ next ∈ rest, next ∉ (c.follow ref).converted := by
      intro next hm
      rw [hconverted, List.mem_cons, not_or]
      exact ⟨fun he => hne (he ▸ hm), hn next (List.mem_cons_of_mem _ hm)⟩
    have hbehind := ih hrest hfresh fun next hm =>
      hsame ▸ h next (List.mem_cons_of_mem _ hm)
    rw [List.flatMap_cons, ← List.append_assoc, ← hmissing, ← hsame]
    exact hbehind

/-- The conversion of a defined name mentions the missing names that are met in what is defined. -/
theorem misses_conversionOf {name : Key} {v : Value} {schema : Entries Value} {node : Node}
    (hd : Reference.definition? c.definitions name = .ok (some schema))
    (hv : v.entries? = some schema) {round : Nat}
    (h : (c.conversionOf ⟨name, round⟩).outcome = .ok node) :
    Misses c.definitions [v] (missingNames (c.conversionOf ⟨name, round⟩).events) := by
  have hconversion : c.conversionOf ⟨name, round⟩ = c.source.convert (.map schema) := by
    unfold conversionOf
    simp [hd]
  rw [hconversion] at h ⊢
  have hmisses : Misses c.definitions [.map schema]
      (missingNames (c.source.convert (.map schema)).events) :=
    Source.mentionsMissing_convert (.map schema) node h
  exact hmisses.of_entries? hv.symm

/-- The conversions of defined names mention the missing names that are met in the definitions. -/
theorem misses_conversions {entries : Entries Value} {round : Nat}
    (hd : ∀ e ∈ entries, ∀ schema, e.2.entries? = some schema →
      Reference.definition? c.definitions e.1 = .ok (some schema) ∧
        ∃ node, (c.conversionOf ⟨e.1, round⟩).outcome = .ok node) :
    Misses c.definitions (mappingsOf entries)
      ((definedNames (.map entries)).flatMap fun name =>
        missingNames (c.conversionOf ⟨name, round⟩).events) := by
  have hall : ∀ entries : Entries Value, definedNames (.map entries) = entries.filterMap
      fun e => if e.2.entries?.isSome then some e.1 else none := fun _ => rfl
  induction entries with
  | nil => exact .nil
  | cons e rest ih =>
    obtain ⟨name, v⟩ := e
    have ih := ih fun e he => hd e (List.mem_cons_of_mem _ he)
    rw [hall] at ih ⊢
    cases hv : v.entries? with
    | none => simpa [mappingsOf, Entries.values, hv] using ih
    | some schema =>
      obtain ⟨hdef, node, hnode⟩ := hd (name, v) (by simp) schema hv
      have hfirst := misses_conversionOf hdef hv hnode
      simpa [mappingsOf, Entries.values, hv] using hfirst.append ih

end Converter

/-- A converter of a document has its definitions, which are a mapping. -/
theorem definitions_of_convertDocument {document : Value} {c : Converter}
    (hc : convertDocument document = .ok c) :
    definitionsOf document = .ok c.definitions ∧
      ∃ entries, c.definitions.entries? = some entries := by
  obtain ⟨start, hs, hc⟩ := exceptBind_eq_ok.mp hc
  obtain ⟨definitions, hd, hs⟩ := exceptBind_eq_ok.mp hs
  obtain ⟨entries, he, hc⟩ := exceptBind_eq_ok.mp hc
  obtain rfl := Except.ok.inj hs
  obtain rfl := Except.ok.inj hc
  exact ⟨hd, entries, entries?_of_entriesOf he⟩

/-- Where there is code for a document, the notes are those on the references without a definition
that are met in the definitions, in order, one for each time that such a reference is met. -/
theorem notes_of_generate {document : Value} {settings : Settings} {text : Text}
    (hd : ∀ definitions, definitionsOf document = .ok definitions → definitions.NamesDiffer)
    (h : (generate document settings).1 = .ok text) :
    ∃ definitions entries names, definitionsOf document = .ok definitions ∧
      definitions.entries? = some entries ∧ Misses definitions (mappingsOf entries) names ∧
      (∀ others, Misses definitions (mappingsOf entries) others → others = names) ∧
      (generate document settings).2 =
        names.map fun name =>
          ("Referenced schema \"" : Text) ++ name ++ "\" not found in spec" := by
  obtain ⟨file, hf, -⟩ := generate_eq_ok.mp h
  obtain ⟨c, hc⟩ := exists_convertDocument_of_generateFile hf
  obtain ⟨hdefinitions, entries, he⟩ := definitions_of_convertDocument hc
  have hdiffer : KeysDiffer (Entries.keys entries) := hd _ hdefinitions entries he
  obtain ⟨map, hm, -, -⟩ := (generateFile_eq_ok hc).mp hf
  have hconverted := exists_conversion_of_mem_refs hc he hdiffer hm
  obtain ⟨-, hfresh, hnone⟩ := Converter.fresh_of_convertDocument hc
  have hnames : Converter.definedNames c.definitions = Converter.definedNames (.map entries) := by
    rw [Converter.definedNames, he]
    rfl
  have hnodup : c.registry.refs.Nodup := by
    refine ((hd _ hdefinitions).definedNames.nodup).map fun a b hab => ?_
    exact congrArg Ref.name hab
  have hmissing := Converter.missing_followAll hnodup (by simp [hfresh]) hconverted
  have hmisses : Misses c.definitions (mappingsOf entries)
      (c.followAll c.registry.refs).missing := by
    rw [hmissing, hnone, List.nil_append]
    change Misses _ _ (((Converter.definedNames c.definitions).map _).flatMap _)
    rw [List.flatMap_map, hnames]
    refine Converter.misses_conversions fun e hm schema hs => ?_
    have hdefinition : Reference.definition? c.definitions e.1 = .ok (some schema) :=
      definition?_eq_some.mpr ⟨entries, e.2, he, Entries.find?_of_mem hdiffer hm, hs⟩
    refine ⟨hdefinition, hconverted _ (List.mem_map_of_mem ?_)⟩
    rw [hnames, Converter.definedNames]
    exact List.mem_filterMap.mpr ⟨e, hm, by simp [hs]⟩
  refine ⟨c.definitions, entries, _, hdefinitions, he, hmisses, fun others ho =>
    ho.unique hmisses, ?_⟩
  exact notes_of_generateFile hc he hdiffer hf

/-- A schema with dangling references: two that count, one in a property that comes again, and one
in a member without a type. -/
def adoptedSchema : Entries Value :=
  [("allOf", .list [
    .map [("type", "object"), ("properties", .map [
      ("owner", .map [("$ref", "#/Former")]), ("home", .map [("$ref", "#/Home")])])],
    .map [("$ref", "#/Dropped")],
    .map [("type", "object"), ("properties", .map [("owner", .map [("$ref", "#/Owner")])])]])]

/-- A schema with dangling references: one that counts, and one beside the keyword that decides. -/
def visitorSchema : Entries Value :=
  [("anyOf", .list [.map [("$ref", "#/Pet")], .map [("$ref", "#/Owner")]]),
    ("oneOf", .list [.map [("$ref", "#/Passed")]])]

/-- The schemas, with a name between them that defines nothing. -/
def visitDefinitions : Entries Value :=
  [("Pet", .map adoptedSchema), ("Home", "none"), ("Visitor", .map visitorSchema)]

/-- The missing names of the schemas: the owner and the home of the pet, and the owner again. -/
theorem misses_visit : Misses (.map visitDefinitions) (mappingsOf visitDefinitions)
    ["Owner", "Home", "Owner"] := by
  have reference : ∀ (target : Text) (names : List Text),
      danglingNames (.map visitDefinitions) [("$ref", .text target)] = names →
        Misses (.map visitDefinitions) [.map [("$ref", .text target)]] names := by
    rintro target names rfl
    have hs : Misses (.map visitDefinitions) [.map [("$ref", .text target)]]
        (danglingNames (.map visitDefinitions) [("$ref", .text target)] ++ []) :=
      .singleton rfl .nil
    rwa [List.append_nil] at hs
  have hpet : Misses (.map visitDefinitions) (schemasMet adoptedSchema) ["Owner", "Home"] :=
    (reference "#/Owner" ["Owner"] rfl).append (reference "#/Home" ["Home"] rfl)
  have hvisitor : Misses (.map visitDefinitions) (schemasMet visitorSchema) ["Owner"] :=
    (reference "#/Pet" [] rfl).append (reference "#/Owner" ["Owner"] rfl)
  have hbehind : Misses (.map visitDefinitions) [.map visitorSchema] ["Owner"] :=
    .cons rfl hvisitor .nil
  exact .cons rfl hpet hbehind

/-- The notes on the schemas. -/
theorem notes_of_generate_visit : ∃ text,
    (∀ definitions, definitionsOf (documentWith visitDefinitions) = .ok definitions →
      definitions.NamesDiffer) ∧
    (generate (documentWith visitDefinitions) {}).1 = .ok text ∧
    (generate (documentWith visitDefinitions) {}).2 =
      ["Referenced schema \"Owner\" not found in spec",
        "Referenced schema \"Home\" not found in spec",
        "Referenced schema \"Owner\" not found in spec"] := by
  have hdiffer : ∀ definitions, definitionsOf (documentWith visitDefinitions) = .ok definitions →
      definitions.NamesDiffer := by
    intro definitions hd entries he
    obtain rfl := Except.ok.inj hd
    obtain rfl := Option.some.inj he
    unfold KeysDiffer
    decide
  have hok : (generate (documentWith visitDefinitions) {}).1.toOption.isSome = true := by
    decide +kernel
  cases h : (generate (documentWith visitDefinitions) {}).1 with
  | error e => simp [h, Except.toOption] at hok
  | ok text =>
    obtain ⟨definitions, entries, names, hd, he, -, hunique, hnotes⟩ := notes_of_generate hdiffer h
    obtain rfl := Except.ok.inj hd
    obtain rfl := Option.some.inj he
    obtain rfl := hunique _ misses_visit
    exact ⟨text, hdiffer, rfl, hnotes⟩

end ZodSchemas
