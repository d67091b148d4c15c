import ZodSchemas.Proofs.Conversion.Joining
import ZodSchemas.Proofs.Schema.Parsing
import ZodSchemas.Proofs.Validation.Acceptance

/-!
# Disjoint members taken together

An object with some properties accepts a mapping when each property accepts what
the mapping has under its key, and leaves what the properties leave. Whether a
property accepts depends on nothing but the property and the value. So disjoint
members that are taken together accept a value when each member by itself does,
and leave what the members leave, one after another.
-/

namespace ZodSchemas

namespace Validation

variable {registry : Registry} {entries : Entries Value}

/-- A property accepts what a mapping has under its key, if anything. -/
def AcceptsPart (registry : Registry) (entries : Entries Value) (e : Key × Node) : Prop :=
  ∃ data, Derives registry e.2 (Entries.find? e.1 entries) [.key e.1] ⟨data, []⟩

/-- The verdict of a property about what a mapping has under its key. -/
def partVerdict (registry : Registry) (entries : Entries Value) (e : Key × Node) : Verdict :=
  verdictOf (validateAt registry e.2 (Entries.find? e.1 entries) [.key e.1])

/-- What properties leave of a mapping. -/
def leftBy (registry : Registry) (entries : Entries Value) (nodes : Entries Node) :
    Entries Value :=
  nodes.filterMap fun e => (partVerdict registry entries e).data.map fun w => (e.1, w)

/-- What properties leave has keys of the properties, in their order. -/
theorem keys_leftBy_sublist (nodes : Entries Node) :
    (Entries.keys (leftBy registry entries nodes)).Sublist (Entries.keys nodes) := by
  induction nodes with
  | nil => exact .slnil
  | cons e rest ih =>
    rw [leftBy, List.filterMap_cons]
    split
    · exact ih.cons _
    · next x hx =>
      obtain ⟨w, -, rfl⟩ := Option.map_eq_some_iff.mp hx
      exact ih.cons_cons _

/-- What properties leave that come one after another comes one after another. -/
theorem leftBy_flatten (parts : List (Entries Node)) :
    leftBy registry entries parts.flatten = (parts.map (leftBy registry entries)).flatten := by
  induction parts with
  | nil => rfl
  | cons part rest ih =>
    rw [List.flatten_cons, List.map_cons, List.flatten_cons, ← ih]
    exact List.filterMap_append

/-- An object accepts the mappings that each of its properties accepts, and leaves what the
properties leave. -/
theorem parse_object_iff (hc : registry.IsClosed) {nodes : Entries Node} {required : List Key}
    {v : Value} (hv : v.isFinite = true) {data : Option Value} :
    (parse registry (.object nodes required) (some v)).outcome = .ok (.ok data) ↔
      ∃ entries, v.entries? = some entries ∧ (∀ e ∈ nodes, AcceptsPart registry entries e) ∧
        data = some (.map (leftBy registry entries nodes)) := by
  have hvalue : ∀ w ∈ some v, w.isFinite = true := by simpa using hv
  rw [parse_eq_data, validate, validateAt_eq_ok_iff_derives hc hvalue]
  cases he : v.entries? with
  | none =>
    rw [derives_object_of_none he]
    simp [Verdict.reject]
  | some entries =>
    have verdict_eq : ∀ {e : Key × Node} {verdict : Verdict},
        Derives registry e.2 (Entries.find? e.1 entries) [.key e.1] verdict →
        partVerdict registry entries e = verdict := by
      refine fun h => verdictOf_eq (validateAt_of_derives hc h fun w hw => ?_)
      exact Value.isFinite_of_mem_parts hv (mem_parts_of_find? he hw)
    rw [derives_object he]
    simp only [Option.some.injEq, exists_eq_left', List.nil_append]
    constructor
    · rintro ⟨verdicts, hverdict, hjudged⟩
      obtain ⟨rfl, hissues⟩ := Verdict.mk.inj hverdict
      have hpass : ∀ e ∈ nodes, (verdicts e).issues = [] :=
        List.flatMap_eq_nil_iff.mp hissues.symm
      refine ⟨fun e hm => ⟨(verdicts e).data, ?_⟩, ?_⟩
      · rw [← hpass e hm]
        exact hjudged e hm
      · refine congrArg (fun entries => some (Value.map entries)) (List.filterMap_congr ?_)
        intro e hm
        rw [verdict_eq (hjudged e hm)]
    · rintro ⟨hpass, rfl⟩
      refine ⟨partVerdict registry entries, ?_, fun e hm => ?_⟩
      · refine (Verdict.mk.injEq ..).mpr ⟨rfl, (List.flatMap_eq_nil_iff.mpr fun e hm => ?_).symm⟩
        obtain ⟨left, hd⟩ := hpass e hm
        rw [verdict_eq hd]
      · obtain ⟨left, hd⟩ := hpass e hm
        rw [verdict_eq hd]
        exact hd

end Validation

open Validation

/-- A well-formed schema that is not inside itself and whose lengths can be written. -/
structure IsSettledSchema (schema : Entries Value) : Prop where
  /-- It is well formed. -/
  formed : IsSchema schema
  /-- It is not inside itself. -/
  finite : (Value.map schema).isFinite = true
  /-- Its lengths can be written, and those of the schemas inside it. -/
  lengths : Throughout HasWritableLengths schema

/-- A schema is settled when its own keywords are, and the schemas right inside it. -/
theorem IsSettledSchema.of_parts {schema : Entries Value} (hs : IsShaped schema)
    (hl : HasWritableLengths schema) (hf : (Value.map schema).isFinite = true)
    (hi : ∀ sub, Inside sub schema → IsSettledSchema sub) : IsSettledSchema schema :=
  ⟨.of_parts hs fun sub h => (hi sub h).formed, hf, .of_parts hl fun sub h => (hi sub h).lengths⟩

/-- A schema inside a settled one is settled. -/
theorem IsSettledSchema.inside {schema sub : Entries Value} (h : IsSettledSchema schema)
    (hs : Relation.TransGen Inside sub schema) : IsSettledSchema sub :=
  ⟨h.formed.inside hs, isFinite_of_inside h.finite hs, h.lengths.inside hs⟩

namespace Converter

variable {c : Converter} {whole v : Value} {schema : Entries Value} {members : List Value}

/-- Parsing a value with a schema succeeds and leaves some data. -/
def Parses (c : Converter) (schema v : Value) (data : Option Value) : Prop :=
  ∃ node, (c.source.convert schema).outcome = .ok node ∧
    (parse c.registry node (some v)).outcome = .ok (.ok data)

/-- The definitions of a converter are settled schemas, and no name comes to itself. -/
structure IsSettled (c : Converter) : Prop where
  /-- The definitions are a mapping from different keys. -/
  mapping : ∃ entries, c.definitions.entries? = some entries ∧ KeysDiffer (Entries.keys entries)
  /-- Each is a settled schema. -/
  schemas : ∀ name schema, Reference.definition? c.definitions name = .ok (some schema) →
    IsSettledSchema schema
  /-- No name comes to itself through references and options alone. -/
  apart : NamesApart c.definitions

/-- There is an answer about every value that can be written. -/
theorem exists_answer_of_isSettled (hc : c.IsSettled) {m : Value} (hm : m.entries? = some schema)
    (hs : IsSettledSchema schema) (hv : v.isFinite = true) (hw : v.IsWritable) :
    ∃ node, (c.source.convert m).outcome = .ok node ∧ c.registry.Answers node (some v) := by
  obtain ⟨entries, he, hk⟩ := hc.mapping
  have hd : AreDefinitions c.definitions :=
    ⟨⟨entries, he, hk⟩, fun name found h => (hc.schemas name found h).formed⟩
  have hf : AreFinite c.definitions := fun name found h => (hc.schemas name found h).finite
  obtain ⟨node, hnode⟩ := c.source.exists_converts he hs.formed hs.finite
  refine ⟨node, ?_, ?_⟩
  · rw [Source.convert_map ((Value.isFinite_map_iff hm).mp hs.finite) hm]
    exact hnode
  · have hregular := Source.isRegular_of_converts he hs.formed hs.finite hs.lengths hnode
    have hbodies := hasRegularBodies hd hf fun name found h => (hc.schemas name found h).lengths
    have hvalue : ∀ w ∈ some v, w.isFinite = true := by simpa using hv
    obtain ⟨verdict, h⟩ := exists_verdict (isAcyclic hd hf hc.apart) c.registry_isClosed hbodies
      hvalue ⟨hregular, by simpa using hw⟩ []
    exact ⟨_, parse_eq_ok.mpr ⟨verdict, h, rfl⟩⟩

/-- Members are taken together to their conjunction, as far as a value goes. -/
structure IsConjunction (c : Converter) (whole : Value) (members : List Value) (v : Value) :
    Prop where
  /-- The whole accepts the value when every member does. -/
  accepts : (∃ data, c.Parses whole v data) ↔ ∀ m ∈ members, ∃ data, c.Parses m v data
  /-- What it leaves then is what the members leave, one after another, under different keys. -/
  leaves : ∀ data, c.Parses whole v data → ∃ parts : List (Entries Value),
    List.Forall₂ (fun m part => c.Parses m v (some (.map part))) members parts ∧
      KeysDiffer (Entries.keys parts.flatten) ∧ data = some (.map parts.flatten)
  /-- Where the definitions and the whole are settled, there is an answer of each. -/
  answers : c.IsSettled → (∀ schema, whole.entries? = some schema → IsSettledSchema schema) →
    v.IsWritable → ∀ m ∈ whole :: members,
      ∃ node, (c.source.convert m).outcome = .ok node ∧ c.registry.Answers node (some v)

/-- A value parses with a schema that is converted to an object when the properties of that
accept what it has under their keys. -/
theorem parses_iff (hv : v.isFinite = true) {m : Value} {nodes : Entries Node}
    (h : c.source.HasObject m nodes) {data : Option Value} : c.Parses m v data ↔
      ∃ entries, v.entries? = some entries ∧ (∀ e ∈ nodes, AcceptsPart c.registry entries e) ∧
        data = some (.map (leftBy c.registry entries nodes)) := by
  obtain ⟨required, h⟩ := h
  rw [Parses, ← parse_object_iff c.registry_isClosed hv]
  constructor
  · rintro ⟨node, hn, hp⟩
    obtain rfl := Except.ok.inj (h.symm.trans hn)
    exact hp
  · exact fun hp => ⟨_, h, hp⟩

/-- Where the properties of all members accept their parts of a value, each member parses the
value. -/
theorem parses_of_acceptsPart (hv : v.isFinite = true) {entries : Entries Value}
    (he : v.entries? = some entries) {parts : List (Entries Node)}
    (h : List.Forall₂ c.source.HasObject members parts)
    (ha : ∀ part ∈ parts, ∀ e ∈ part, AcceptsPart c.registry entries e) :
    List.Forall₂ (fun m part => c.Parses m v (some (.map part))) members
      (parts.map (leftBy c.registry entries)) := by
  induction h with
  | nil => exact .nil
  | cons hobject _ ih =>
    obtain ⟨hfirst, hrest⟩ := List.forall_mem_cons.mp ha
    exact .cons ((parses_iff hv hobject).mpr ⟨entries, he, hfirst, rfl⟩) (ih hrest)

/-- Where each member parses a value, the properties of all accept their parts of it. -/
theorem exists_parts_of_parses (hv : v.isFinite = true) {entries : Entries Value}
    (he : v.entries? = some entries) (hm : ∀ m ∈ members, IsObjectMember m)
    (h : ∀ m ∈ members, ∃ data, c.Parses m v data) :
    ∃ parts, List.Forall₂ c.source.HasObject members parts ∧
      ∀ part ∈ parts, ∀ e ∈ part, AcceptsPart c.registry entries e := by
  induction members with
  | nil => exact ⟨[], .nil, nofun⟩
  | cons m rest ih =>
    obtain ⟨hfirst, hothers⟩ := List.forall_mem_cons.mp hm
    obtain ⟨⟨data, node, hnode, hp⟩, hrest⟩ := List.forall_mem_cons.mp h
    obtain ⟨nodes, required, rfl⟩ := Source.exists_hasObject_member hfirst hnode
    have hobject : c.source.HasObject m nodes := ⟨required, hnode⟩
    obtain ⟨found, hf, ha, -⟩ := (parses_iff hv hobject).mp ⟨_, hnode, hp⟩
    obtain rfl := Option.some.inj (hf.symm.trans he)
    obtain ⟨parts, hparts, hall⟩ := ih hothers hrest
    exact ⟨nodes :: parts, .cons hobject hparts, List.forall_mem_cons.mpr ⟨ha, hall⟩⟩

/-- What a member parses is a mapping. -/
theorem exists_entries_of_parses (hv : v.isFinite = true) {m : Value} (hm : IsObjectMember m)
    {data : Option Value} (h : c.Parses m v data) : ∃ entries, v.entries? = some entries := by
  obtain ⟨node, hnode, hp⟩ := h
  obtain ⟨nodes, required, rfl⟩ := Source.exists_hasObject_member hm hnode
  obtain ⟨entries, he, -⟩ := (parse_object_iff c.registry_isClosed hv).mp hp
  exact ⟨entries, he⟩

section Joined

variable (hw : whole.entries? = some schema) (hj : Joins schema members)
  (hm : ∀ m ∈ members, IsObjectMember m) (hd : (objectMembers members).Pairwise AreDisjoint)
  (hv : v.isFinite = true)

include hw hj hm hd hv

/-- What disjoint members parse that are taken together, each of them parses, and leaves its part
of what they leave. -/
theorem exists_parts_of_parses_joined {data : Option Value} (h : c.Parses whole v data) :
    ∃ parts : List (Entries Value),
      List.Forall₂ (fun m part => c.Parses m v (some (.map part))) members parts ∧
        KeysDiffer (Entries.keys parts.flatten) ∧ data = some (.map parts.flatten) := by
  obtain ⟨node, hnode, hp⟩ := h
  obtain ⟨nodes, required, rfl⟩ := Source.exists_hasObject_joined hw hj hm hnode
  have hobject : c.source.HasObject whole nodes := ⟨required, hnode⟩
  obtain ⟨entries, he, ha, rfl⟩ := (parse_object_iff c.registry_isClosed hv).mp hp
  have hkeys : KeysDiffer (Entries.keys (leftBy c.registry entries nodes)) :=
    (Source.keysDiffer_of_hasObject hw hj hm hobject).sublist (keys_leftBy_sublist nodes)
  obtain ⟨parts, hparts, rfl⟩ := (Source.hasObject_joined hw hj hm hd).mp hobject
  rw [leftBy_flatten] at hkeys ⊢
  exact ⟨_, parses_of_acceptsPart hv he hparts fun part hpart e hin =>
    ha e (List.mem_flatten_of_mem hpart hin), hkeys, rfl⟩

/-- What each of some disjoint members parses, they parse when they are taken together. -/
theorem exists_parses_joined (hne : members ≠ []) (h : ∀ m ∈ members, ∃ data, c.Parses m v data) :
    ∃ data, c.Parses whole v data := by
  obtain ⟨m, hin⟩ := List.exists_mem_of_ne_nil members hne
  obtain ⟨data, hp⟩ := h m hin
  obtain ⟨entries, he⟩ := exists_entries_of_parses hv (hm m hin) hp
  obtain ⟨parts, hparts, ha⟩ := exists_parts_of_parses hv he hm h
  have hobject := (Source.hasObject_joined hw hj hm hd).mpr ⟨parts, hparts, rfl⟩
  refine ⟨_, (parses_iff hv hobject).mpr ⟨entries, he, fun e hin => ?_, rfl⟩⟩
  obtain ⟨part, hpart, hin⟩ := List.mem_flatten.mp hin
  exact ha part hpart e hin

end Joined

/-- Disjoint members that are taken together are their conjunction. -/
theorem joined_isConjunction (hw : whole.entries? = some schema) (hj : Joins schema members)
    (hm : ∀ m ∈ members, IsObjectMember m) (hd : (objectMembers members).Pairwise AreDisjoint)
    (hne : members ≠ []) (hv : v.isFinite = true) : c.IsConjunction whole members v where
  accepts := by
    refine ⟨fun ⟨data, hp⟩ m hin => ?_, exists_parses_joined hw hj hm hd hv hne⟩
    obtain ⟨parts, hparts, -⟩ := exists_parts_of_parses_joined hw hj hm hd hv hp
    obtain ⟨part, -, hpart⟩ := exists_right_of_mem hparts hin
    exact ⟨_, hpart⟩
  leaves _ hp := exists_parts_of_parses_joined hw hj hm hd hv hp
  answers hc hs hwritable := by
    refine List.forall_mem_cons.mpr
      ⟨exists_answer_of_isSettled hc hw (hs schema hw) hv hwritable, fun m hin => ?_⟩
    obtain ⟨sub, he, -⟩ := hm m hin
    have hinside : Inside sub schema :=
      .member (by simp [memberKeywords]) hj.listed hin he
    exact exists_answer_of_isSettled hc he ((hs schema hw).inside (.single hinside)) hv hwritable

end Converter

/-- Texts are settled. -/
theorem isSettledSchema_textSchema : IsSettledSchema textSchema := by
  refine .of_parts ?_ ?_ rfl fun sub h => absurd h (not_inside (by decide))
  · constructor <;> simp +decide [textSchema, Entries.find?, memberKeywords, lengthKeywords]
  · simp +decide [HasWritableLengths, textSchema, Entries.find?, lengthKeywords]

/-- A reference to lists is settled. -/
theorem isSettledSchema_linkSchema : IsSettledSchema linkSchema := by
  refine .of_parts ?_ ?_ rfl fun sub h => absurd h (not_inside (by decide))
  · constructor <;> simp +decide [linkSchema, Entries.find?, memberKeywords, lengthKeywords]
  · simp +decide [HasWritableLengths, linkSchema, Entries.find?, lengthKeywords]

/-- Objects with some properties, of which some are required. -/
def recordSchema (entries : Entries Value) (names : List Text) : Entries Value :=
  [("type", "object"), ("properties", .map entries), ("required", .list (names.map .text))]

/-- A schema of type object is settled when its properties are. -/
theorem isSettledSchema_recordSchema {entries : Entries Value} (names : List Text)
    (hd : KeysDiffer (Entries.keys entries))
    (he : ∀ e ∈ entries, (∃ t, e.1 = .text t) ∧
      ∃ sub, e.2.entries? = some sub ∧ IsSettledSchema sub) :
    IsSettledSchema (recordSchema entries names) := by
  obtain ⟨found, hf, hs⟩ := isMember_objectSchema hd
    (fun e hm => ⟨(he e hm).1, .inr ((he e hm).2.imp fun _ => And.left)⟩) names
  obtain rfl := Option.some.inj hf
  refine .of_parts hs ?_ ?_ fun sub h => ?_
  · simp +decide [HasWritableLengths, recordSchema, Entries.find?, lengthKeywords]
  · have hentries : (Value.map entries).isFinite = true := by
      refine Value.isFinite_of_parts fun w hw => ?_
      obtain ⟨e, hm, rfl⟩ : ∃ e ∈ entries, e.2 = w := List.mem_map.mp hw
      obtain ⟨sub, hsub, hsettled⟩ := (he e hm).2
      exact (Value.isFinite_map_iff hsub).mp hsettled.finite
    have hnames : (Value.list (names.map .text)).isFinite = true := by
      refine Value.isFinite_of_parts fun w hw => ?_
      obtain ⟨t, -, rfl⟩ : ∃ t ∈ names, Value.text t = w := List.mem_map.mp hw
      rfl
    refine Value.isFinite_of_parts fun w hw => ?_
    obtain rfl | rfl | rfl : w = "object" ∨ w = .map entries ∨ w = .list (names.map .text) := by
      simpa [recordSchema, Value.parts, Value.shape] using hw
    · rfl
    · exact hentries
    · exact hnames
  · cases h with
    | member hk hl _ _ =>
      obtain ⟨v, hv, -⟩ := hl
      simp only [memberKeywords, List.mem_cons, List.not_mem_nil, or_false] at hk
      rcases hk with rfl | rfl | rfl <;> cases hv
    | @property _ _ _ v e hv hdeclared hm hsub =>
      obtain rfl : .map entries = v := by simpa +decide [recordSchema, Entries.find?] using hv
      obtain rfl := Option.some.inj hdeclared
      obtain ⟨inner, hinner, hsettled⟩ := (he e hm).2
      rwa [← Option.some.inj (hinner.symm.trans hsub)]
    | items hv _ => cases hv

/-- The definition of objects that go on with such an object, if at all. -/
def chainSchema : Entries Value := recordSchema [("next", .map linkSchema)] []

/-- Named objects that go on, if at all, of a size that is not declared, and marked objects. -/
def recordMembers : List Value :=
  [.map (recordSchema [("name", .map textSchema), ("next", .map linkSchema)] ["name", "size"]),
    .map (recordSchema [("mark", .map textSchema)] [])]

/-- Settled members are taken together to a settled schema. -/
theorem isSettledSchema_together {members : List Value}
    (h : ∀ m ∈ members, ∃ schema, m.entries? = some schema ∧ IsSettledSchema schema) :
    IsSettledSchema [("allOf", .list members)] := by
  refine .of_parts (Source.isShaped_together fun m hm => (h m hm).imp fun _ => And.left) ?_ ?_ ?_
  · simp +decide [HasWritableLengths, Entries.find?, lengthKeywords]
  · refine Source.isFinite_together fun m hm => ?_
    obtain ⟨schema, he, hs⟩ := h m hm
    exact (Value.isFinite_map_iff he).mp hs.finite
  · intro sub hi
    obtain ⟨m, hm, he⟩ := Source.exists_of_inside_together hi
    obtain ⟨schema, he', hs⟩ := h m hm
    rwa [Option.some.inj (he.symm.trans he')]

/-- The members are settled, taken together. -/
theorem isSettledSchema_recordMembers : IsSettledSchema [("allOf", .list recordMembers)] := by
  have htext : ∃ sub, (Value.map textSchema).entries? = some sub ∧ IsSettledSchema sub :=
    ⟨_, rfl, isSettledSchema_textSchema⟩
  have hlink : ∃ sub, (Value.map linkSchema).entries? = some sub ∧ IsSettledSchema sub :=
    ⟨_, rfl, isSettledSchema_linkSchema⟩
  refine isSettledSchema_together (List.forall_mem_cons.mpr ⟨?_, List.forall_mem_singleton.mpr ?_⟩)
  · refine ⟨_, rfl, isSettledSchema_recordSchema _ (by simp +decide [KeysDiffer]) ?_⟩
    simp [htext, hlink]
  · refine ⟨_, rfl, isSettledSchema_recordSchema _ (by simp [KeysDiffer, Entries.keys]) ?_⟩
    simp [htext]

/-- A converter whose only definition goes on with itself is settled. -/
theorem isSettled_chain {c : Converter} (h : c.definitions = .map [("List", .map chainSchema)]) :
    c.IsSettled := by
  have hs : IsSettledSchema chainSchema := by
    refine isSettledSchema_recordSchema _ (by simp [KeysDiffer, Entries.keys]) ?_
    exact List.forall_mem_singleton.mpr ⟨⟨_, rfl⟩, _, rfl, isSettledSchema_linkSchema⟩
  constructor
  · exact ⟨_, by rw [h]; rfl, by simp [KeysDiffer, Entries.keys]⟩
  · intro name schema hd
    rw [h] at hd
    obtain rfl := Option.some.inj (definition?_single hd)
    exact hs
  · rw [h]
    exact namesApart_single rfl fun t => not_comesTo (by decide)

/-- The members are of type object. -/
theorem isObjectMember_of_recordMembers : ∀ m ∈ recordMembers, IsObjectMember m := by
  refine List.forall_mem_cons.mpr ⟨?_, List.forall_mem_singleton.mpr ?_⟩
  all_goals exact ⟨_, rfl, ⟨rfl, rfl⟩, rfl, by simp +decide [KeysDiffer]⟩

/-- The members are disjoint, though the size is required that none declares. -/
theorem areDisjoint_recordMembers : (objectMembers recordMembers).Pairwise AreDisjoint := by
  refine List.pairwise_pair.mpr ?_
  constructor <;> simp +decide

/-- A named object and a mark are parsed together to what each member leaves. -/
theorem joined_isConjunction_recordMembers :
    (objectMembers recordMembers).Pairwise AreDisjoint ∧
    ∃ c, convertDocument (documentOf "List" (.map chainSchema)) = .ok c ∧
      c.IsSettled ∧ IsSettledSchema [("allOf", .list recordMembers)] ∧
      c.Parses (togetherSchema recordMembers)
        (.map [("mark", "m"), ("name", "x"), ("next", .map []), ("other", .null)])
        (some (.map [("name", "x"), ("next", .map []), ("mark", "m")])) ∧
      c.IsConjunction (togetherSchema recordMembers) recordMembers
        (.map [("mark", "m"), ("name", "x"), ("next", .map []), ("other", .null)]) := by
  have hj : Joins [("allOf", .list recordMembers)] recordMembers := ⟨rfl, ⟨_, rfl, rfl⟩, rfl⟩
  refine ⟨areDisjoint_recordMembers, _, rfl, isSettled_chain rfl, isSettledSchema_recordMembers,
    ⟨_, rfl, rfl⟩, ?_⟩
  exact Converter.joined_isConjunction rfl hj isObjectMember_of_recordMembers
    areDisjoint_recordMembers (by simp [recordMembers]) rfl

end ZodSchemas
