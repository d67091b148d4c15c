import ZodSchemas.Proofs.Conversion.Agreement
import ZodSchemas.Proofs.Declaration.Followed
import ZodSchemas.Proofs.Dependency.Growth

/-!
# Further definitions

Definitions that are put behind those of a document, under names that these do
not refer to, have no influence on what was there: the earlier definitions stand
for the same, are ordered alike and come first, so their declarations and notes
are the first of the larger document. The new definitions may refer to the
earlier ones and to each other in any way.
-/

namespace ZodSchemas

/-- A reference stands somewhere inside a value. -/
inductive Value.Mentions : Value → Text → Prop where
  /-- The value itself is a reference. -/
  | here {v : Value} {schema : Entries Value} {t : Text} (hs : v.entries? = some schema)
      (ht : Entries.find? "$ref" schema = some (.text t)) : Mentions v t
  /-- It stands inside a part of the value. -/
  | inside {v part : Value} {t : Text} (hp : part ∈ v.parts) (h : Mentions part t) : Mentions v t

/-- What is mentioned inside the entries of a value is mentioned inside the value. -/
theorem Value.Mentions.of_map {v : Value} {schema : Entries Value} {t : Text}
    (hs : v.entries? = some schema) (h : Mentions (.map schema) t) : v.Mentions t := by
  cases h with
  | here hm ht =>
    obtain rfl := Option.some.inj hm
    exact .here hs ht
  | inside hp h =>
    refine .inside ?_ h
    rw [parts_of_entries? hs]
    exact hp

namespace Value

variable {new : Entries Value}

/-- No reference inside a value ends with one of some names. -/
def Ignores (new : Entries Value) (v : Value) : Prop :=
  ∀ t, v.Mentions t → Entries.has (.text (t.afterLast '/')) new = false

/-- There is no reference inside a value without parts. -/
theorem ignores_atom (key : Key) : (Value.atom key).Ignores new := by
  intro t h
  cases h with
  | here hs _ => simp [entries?, shape] at hs
  | inside hp _ => simp [parts, shape] at hp

/-- The references inside a mapping are the mapping and those inside what belongs to its keys. -/
theorem ignores_map {schema : Entries Value} : (Value.map schema).Ignores new ↔
    (∀ t, Entries.find? "$ref" schema = some (.text t) →
      Entries.has (.text (t.afterLast '/')) new = false) ∧ ∀ e ∈ schema, e.2.Ignores new := by
  constructor
  · exact fun h => ⟨fun t ht => h t (.here rfl ht),
      fun e he t ht => h t (.inside (List.mem_map_of_mem he) ht)⟩
  · rintro ⟨hown, hinner⟩ t h
    cases h with
    | here hs ht =>
      obtain rfl := Option.some.inj hs
      exact hown t ht
    | inside hp ht =>
      obtain ⟨e, he, rfl⟩ := List.mem_map.mp hp
      exact hinner e he t ht

/-- What does not refer to some names has no part that does. -/
theorem isHereditary_ignores (new : Entries Value) : IsHereditary (Ignores new) where
  part h hw t ht := h t (.inside hw ht)
  atom := ignores_atom
  empty := ignores_map.mpr ⟨by simp [Entries.find?], by simp⟩

end Value

/-- Definitions, and others that have more entries behind them: the new names are different ones,
and no reference in the earlier definitions ends with one of them. -/
structure AreExtended (definitions others : Value) (entries new : Entries Value) : Prop where
  /-- The entries of the first. -/
  front : definitions.entries? = some entries
  /-- Those of the second start with them. -/
  whole : others.entries? = some (entries ++ new)
  /-- All names are different. -/
  differ : KeysDiffer (Entries.keys (entries ++ new))
  /-- No new name is referred to. -/
  ignored : ∀ e ∈ entries, e.2.Ignores new

namespace AreExtended

variable {definitions others : Value} {entries new : Entries Value}

/-- The names of the first are different. -/
theorem front_differ (h : AreExtended definitions others entries new) :
    KeysDiffer (Entries.keys entries) := by
  have hd := h.differ
  rw [Entries.keys_append] at hd
  exact (List.pairwise_append.mp hd).1

/-- A name that is not new has the definition that it had. -/
theorem definition?_eq (h : AreExtended definitions others entries new) {name : Key}
    (hn : Entries.has name new = false) :
    Reference.definition? definitions name = Reference.definition? others name :=
  Reference.definition?_congr h.front h.whole (Entries.find?_append_of_not_has hn entries).symm

/-- The names that were defined are not new. -/
theorem not_has_of_mem (h : AreExtended definitions others entries new) {name : Key}
    (hn : name ∈ Converter.definedNames definitions) : Entries.has name new = false := by
  have hd := h.differ
  rw [Entries.keys_append] at hd
  rw [Entries.has_eq_isAmong]
  exact hd.not_among_back ((Converter.definedNames_sublist h.front).subset hn)

/-- The names that are defined are those that were defined, and then new ones. -/
theorem definedNames_eq (h : AreExtended definitions others entries new) :
    Converter.definedNames others =
      Converter.definedNames definitions ++ Converter.definedNames (.map new) := by
  unfold Converter.definedNames
  rw [h.front, h.whole]
  exact List.filterMap_append

/-- The definition of a name that is not new refers to no new name. -/
theorem ignores_of_definition? (h : AreExtended definitions others entries new) {name : Key}
    {schema : Entries Value}
    (hd : Reference.definition? definitions name = .ok (some schema)) :
    (Value.map schema).Ignores new := by
  obtain ⟨listed, v, hl, hv, hs⟩ := definition?_eq_some.mp hd
  obtain rfl := Option.some.inj (h.front.symm.trans hl)
  obtain ⟨k, -, hm⟩ := Entries.mem_of_find? hv
  exact fun t ht => h.ignored (k, v) hm t (ht.of_map hs)

end AreExtended

section Runs

variable {document extended : Value} {c other : Converter} {entries new : Entries Value}

namespace Converter

/-- A reference to a name that is not new stands for what it stood for. -/
theorem conversionOf_extended (hc : convertDocument document = .ok c)
    (ho : convertDocument extended = .ok other)
    (h : AreExtended c.definitions other.definitions entries new) {ref : Ref}
    (hn : Entries.has ref.name new = false) : c.conversionOf ref = other.conversionOf ref := by
  have hsources : c.source.AgreesOn other.source (Value.Ignores new) := by
    refine ⟨Value.isHereditary_ignores new, ?_, fun v schema target name hv hs ht hname => ?_⟩
    · exact round_eq hc ho
    · cases target with
      | atom key =>
        cases key with
        | text t =>
          obtain rfl := Except.ok.inj hname
          exact h.definition?_eq (hv t (.here hs ht))
        | _ => simp [Reference.target] at hname
      | _ => simp [Reference.target] at hname
  exact conversionOf_eq hsources (h.definition?_eq hn) fun _ => h.ignores_of_definition?

/-- The body of a reference to a name that is not new is what it was. -/
theorem body_extended (hc : convertDocument document = .ok c)
    (ho : convertDocument extended = .ok other)
    (h : AreExtended c.definitions other.definitions entries new) {ref : Ref}
    (hn : Entries.has ref.name new = false) : c.registry.body ref = other.registry.body ref :=
  congrArg Traced.outcome (conversionOf_extended hc ho h hn)

/-- The references to the definitions are those that there were, and then new ones. -/
theorem refs_extended (hc : convertDocument document = .ok c)
    (ho : convertDocument extended = .ok other)
    (h : AreExtended c.definitions other.definitions entries new) :
    ∃ more, other.registry.refs = c.registry.refs ++ more := by
  refine ⟨(definedNames (.map new)).map fun name => ⟨name, c.round⟩, ?_⟩
  rw [registry, registry, h.definedNames_eq, List.map_append, round_eq hc ho]

/-- The entries are those that there were, and then new ones. -/
theorem entries_extended (hc : convertDocument document = .ok c)
    (ho : convertDocument extended = .ok other)
    (h : AreExtended c.definitions other.definitions entries new) :
    ∃ more, other.registry.entries = c.registry.entries ++ more := by
  refine ⟨(definedNames (.map new)).map fun name => (name, .lazy ⟨name, c.round⟩), ?_⟩
  rw [entries_registry hc h.front h.front_differ, entries_registry ho h.whole h.differ,
    h.definedNames_eq, List.map_append, round_eq hc ho]

/-- An entry that there was has the body that it had. -/
theorem bodyOf_extended (hc : convertDocument document = .ok c)
    (ho : convertDocument extended = .ok other)
    (h : AreExtended c.definitions other.definitions entries new) {e : Key × Node}
    (he : e ∈ c.registry.entries) : c.registry.bodyOf e.2 = other.registry.bodyOf e.2 := by
  rw [entries_registry hc h.front h.front_differ] at he
  obtain ⟨name, hn, rfl⟩ := List.mem_map.mp he
  have hbody : c.registry.body ⟨name, c.round⟩ = other.registry.body ⟨name, c.round⟩ :=
    body_extended hc ho h (h.not_has_of_mem hn)
  simp only [Registry.bodyOf, Registry.resolve, hbody]

end Converter

namespace Registry

variable {settings : Settings} {map : DependencyMap}

/-- The dependencies that there were are the first. -/
theorem exists_dependencies_extended (hc : convertDocument document = .ok c)
    (ho : convertDocument extended = .ok other)
    (h : AreExtended c.definitions other.definitions entries new) {all : DependencyMap}
    (hm : (dependenciesOf other.registry).outcome = .ok all) :
    ∃ map more, all = map ++ more ∧ (dependenciesOf c.registry).outcome = .ok map := by
  obtain ⟨added, hentries⟩ := Converter.entries_extended hc ho h
  rw [dependenciesOf, hentries] at hm
  obtain ⟨map, more, hmap, hfront⟩ := exists_of_dependenciesFrom_append hm
  refine ⟨map, more, hmap, ?_⟩
  rw [dependenciesOf, dependenciesFrom_congr fun e he => Converter.bodyOf_extended hc ho h he]
  exact hfront

/-- The names that there were are ordered as they were, in front of the new ones. -/
theorem sequence_extended (hc : convertDocument document = .ok c)
    (ho : convertDocument extended = .ok other)
    {more : DependencyMap} (hall : (dependenciesOf other.registry).outcome = .ok (map ++ more))
    (hm : (dependenciesOf c.registry).outcome = .ok map) :
    sequence (map ++ more) = sequence map ++ sequence more := by
  have hd : KeysDiffer (Entries.keys (map ++ more)) :=
    (find?_dependenciesFrom hall).1 ▸ (Converter.keys_registry ho).1
  refine sequence_append hd fun e he d hin => ?_
  rw [Entries.keys_append] at hd
  have hfront := (List.pairwise_append.mp hd).1
  obtain ⟨body, hb, hdependencies⟩ :=
    exists_hasBody_of_find? hm (Entries.find?_of_mem hfront he)
  rw [← hdependencies] at hin
  obtain ⟨ref, hr, rfl⟩ := Node.exists_ref_of_mem_dependencies hin
  obtain ⟨t, ht, hentry⟩ := exists_text_of_mem_refs hc hm hb hr
  rw [ht, Entries.has_eq_isAmong]
  rw [Entries.has_eq_isAmong] at hentry
  exact hd.not_among_back (Key.text_mem_of_isAmong hentry)

/-- Both documents write the same declarations for the names that there were. -/
theorem exists_agreesAt_extended (hc : convertDocument document = .ok c)
    (ho : convertDocument extended = .ok other)
    (h : AreExtended c.definitions other.definitions entries new)
    (hm : (dependenciesOf c.registry).outcome = .ok map) {name : Key} (hn : name ∈ sequence map) :
    ∃ entry, c.registry.AgreesAt other.registry settings name entry := by
  obtain ⟨own, hin, hf⟩ := exists_entry_of_mem_sequence hc hm hn
  have hbody : c.registry.bodyOf (.lazy own) = other.registry.bodyOf (.lazy own) :=
    Converter.bodyOf_extended hc ho h (List.mem_map_of_mem hin)
  obtain ⟨added, hentries⟩ := Converter.entries_extended hc ho h
  refine ⟨.lazy own, hf, ?_, fun progress => declare_congr hbody fun body hb ref hr => ⟨?_, rfl⟩⟩
  · rw [hentries, Entries.find?_append, hf, Option.some_or]
  · obtain ⟨-, t, schema, ht, hd⟩ := Converter.knowsAll_body (resolve_eq_ok.mp hb) ref hr
    refine Converter.body_extended hc ho h (h.not_has_of_mem ?_)
    rw [ht]
    exact Key.text_mem_of_isAmong (Converter.isAmong_definedNames hd)

end Registry

/-- Where a document with further definitions has a file the document has one, with the first of the
declarations. -/
theorem exists_generateFile_extended (hc : convertDocument document = .ok c)
    (ho : convertDocument extended = .ok other)
    (h : AreExtended c.definitions other.definitions entries new) {settings : Settings}
    {file : CodeFile} (hf : (generateFile extended settings).1 = .ok file) :
    ∃ ds others, file.declarations = ds ++ others ∧
      (generateFile document settings).1 = .ok ⟨file.module, ds⟩ := by
  obtain ⟨all, hall, hds, hmodule⟩ := (generateFile_eq_ok ho).mp hf
  obtain ⟨map, more, rfl, hm⟩ := Registry.exists_dependencies_extended hc ho h hall
  rw [Registry.sequence_extended hc ho hall hm] at hds
  obtain ⟨ds, others, hsplit, hfirst⟩ := Registry.exists_of_declarations_append hds
  refine ⟨ds, others, hsplit, (generateFile_eq_ok hc).mpr ⟨map, hm, ?_, hmodule⟩⟩
  rw [Registry.declarations_congr fun name hn => Registry.exists_agreesAt_extended hc ho h hm hn]
  exact hfirst

/-- The notes on the definitions of a document are the first of those with further definitions. -/
theorem Converter.notes_extended (hc : convertDocument document = .ok c)
    (ho : convertDocument extended = .ok other)
    (h : AreExtended c.definitions other.definitions entries new) :
    (c.followAll c.registry.refs).warnings <+: (other.followAll other.registry.refs).warnings := by
  obtain ⟨more, hrefs⟩ := refs_extended hc ho h
  obtain ⟨-, hconverted, hmissing⟩ := fresh_of_convertDocument hc
  obtain ⟨-, hconverted', hmissing'⟩ := fresh_of_convertDocument ho
  have hstart : c.SameNotes other :=
    ⟨hconverted.trans hconverted'.symm, hmissing.trans hmissing'.symm⟩
  have hfirst : (c.followAll c.registry.refs).SameNotes (other.followAll c.registry.refs) := by
    refine hstart.followAll fun ref hr => ?_
    obtain ⟨name, hn, rfl⟩ := List.mem_map.mp hr
    exact conversionOf_extended hc ho h (h.not_has_of_mem hn)
  have hrest := (followAll_spec (other.followAll c.registry.refs) more).1.missing
  unfold warnings
  rw [hfirst.missing, hrefs, followAll_append]
  exact hrest.map missingNote

end Runs

/-- Further definitions leave the code and the notes of a document as they are and go on behind
them: where there is code for the larger document there is code for the document, which is its
front, and the notes are the front of the notes. -/
theorem generated_code_extends {document extended definitions others : Value}
    {entries new : Entries Value} {settings : Settings} {text : Text}
    (hd : definitionsOf document = .ok definitions) (ho : definitionsOf extended = .ok others)
    (h : AreExtended definitions others entries new)
    (hg : (generate extended settings).1 = .ok text) :
    ∃ front, (generate document settings).1 = .ok front ∧ front <+: text ∧
      (generate document settings).2 <+: (generate extended settings).2 := by
  obtain ⟨c, hc, rfl⟩ := Converter.exists_convertDocument hd h.front
  obtain ⟨other, hother, rfl⟩ := Converter.exists_convertDocument ho h.whole
  obtain ⟨file, hf, rfl⟩ := generate_eq_ok.mp hg
  obtain ⟨ds, back, hds, hfront⟩ := exists_generateFile_extended hc hother h hf
  refine ⟨_, generate_eq_ok.mpr ⟨_, hfront, rfl⟩, ?_, ?_⟩
  · have hfile : file = ⟨file.module, ds ++ back⟩ := by rw [← hds]
    rw [hfile]
    exact CodeFile.text_isPrefix_append ds back
  · change (generateFile document settings).2 <+: (generateFile extended settings).2
    rw [notes_of_generateFile hc h.front h.front_differ hfront,
      notes_of_generateFile hother h.whole h.differ hf]
    exact Converter.notes_extended hc hother h

/-- A schema that refers to one that is not defined. -/
def petDefinitions : Entries Value :=
  [("Pet", .map [("type", "object"), ("properties", .map [
      ("owner", .map [("$ref", "#/Owner")])])])]

/-- A schema that refers to the one above and to itself. -/
def homeDefinitions : Entries Value :=
  [("Home", .map [("type", "object"), ("properties", .map [
      ("pet", .map [("$ref", "#/Pet")]), ("next", .map [("$ref", "#/Home")])])])]

/-- The pet does not refer to the home. -/
theorem areExtended_pet : AreExtended (.map petDefinitions)
    (.map (petDefinitions ++ homeDefinitions)) petDefinitions homeDefinitions := by
  refine ⟨rfl, rfl, List.pairwise_pair.mpr rfl, ?_⟩
  have hno : ∀ (schema : Entries Value), Entries.find? "$ref" schema = none → ∀ t : Text,
      Entries.find? "$ref" schema = some (.text t) →
        Entries.has (.text (t.afterLast '/')) homeDefinitions = false :=
    fun schema hn t ht => by simp [hn] at ht
  have howner : Value.Ignores homeDefinitions (.map [("$ref", "#/Owner")]) := by
    refine Value.ignores_map.mpr ⟨fun t ht => ?_, by simp [Value.ignores_atom]⟩
    obtain rfl : ("#/Owner" : Text) = t := by simpa [Entries.find?] using ht
    rfl
  have hproperties : Value.Ignores homeDefinitions
      (.map [("owner", .map [("$ref", "#/Owner")])]) :=
    Value.ignores_map.mpr ⟨hno _ rfl, by simpa using howner⟩
  refine List.forall_mem_singleton.mpr (Value.ignores_map.mpr ⟨hno _ rfl, ?_⟩)
  simpa [Value.ignores_atom] using hproperties

/-- The declaration of a pet, with the note on the missing owner, in front of that of a home. -/
theorem generated_code_extends_home :
    ∃ text front, (generate (documentWith (petDefinitions ++ homeDefinitions)) {}).1 = .ok text ∧
      AreExtended (.map petDefinitions) (.map (petDefinitions ++ homeDefinitions)) petDefinitions
        homeDefinitions ∧
      (generate (documentWith petDefinitions) {}).1 = .ok front ∧ front <+: text ∧
      (generate (documentWith petDefinitions) {}).2 <+:
        (generate (documentWith (petDefinitions ++ homeDefinitions)) {}).2 := by
  have hd : definitionsOf (documentWith petDefinitions) = .ok (.map petDefinitions) := rfl
  have ho : definitionsOf (documentWith (petDefinitions ++ homeDefinitions)) =
      .ok (.map (petDefinitions ++ homeDefinitions)) := rfl
  have hok : (generate (documentWith (petDefinitions ++ homeDefinitions)) {}).1.toOption.isSome =
      true := by
    decide +kernel
  cases h : (generate (documentWith (petDefinitions ++ homeDefinitions)) {}).1 with
  | error e => simp [h, Except.toOption] at hok
  | ok text =>
    obtain ⟨front, hfront, hcode, hnotes⟩ := generated_code_extends hd ho areExtended_pet h
    exact ⟨text, front, rfl, areExtended_pet, hfront, hcode, hnotes⟩

end ZodSchemas
