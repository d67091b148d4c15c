import ZodSchemas.Proofs.Schema.Decision

/-!
# Parsing decides what definitions accept

Every registered name has a definition, and parsing a value with its entry
succeeds exactly when the definition accepts the value. There is an answer
wherever no number has too many digits to be written in a message.
-/

namespace ZodSchemas

open Validation

namespace Converter

variable {document : Value} {c : Converter}

/-- A defined name has a definition. -/
theorem exists_definition_of_mem (hd : AreDefinitions c.definitions) {name : Key}
    (hm : name ∈ definedNames c.definitions) :
    ∃ schema, Reference.definition? c.definitions name = .ok (some schema) := by
  obtain ⟨entries, he, hk⟩ := hd.mapping
  rw [definedNames, he] at hm
  obtain ⟨⟨other, v⟩, hmem, hv⟩ := List.mem_filterMap.mp hm
  obtain ⟨hs, rfl⟩ : v.entries?.isSome = true ∧ other = name := by simpa using hv
  obtain ⟨schema, hschema⟩ := Option.isSome_iff_exists.mp hs
  exact ⟨schema, definition?_eq_some.mpr ⟨entries, v, he, Entries.find?_of_mem hk hmem, hschema⟩⟩

/-- Keys that are the same have the same definition. -/
theorem definition?_congr {definitions : Value} {a b : Key} (h : a.same b = true) :
    Reference.definition? definitions a = Reference.definition? definitions b := by
  unfold Reference.definition? Value.field?
  simp only [Entries.find?_congr h]

/-- The entry of a registered name defers to the definition of the name. -/
theorem exists_definition_of_registered (h : convertDocument document = .ok c)
    (hd : AreDefinitions c.definitions) {name : Key} {node : Node}
    (hr : Entries.find? name c.registry.entries = some node) :
    ∃ ref schema, node = .lazy ref ∧
      Reference.definition? c.definitions ref.name = .ok (some schema) ∧
      Reference.definition? c.definitions name = .ok (some schema) := by
  obtain ⟨entries, he, hk⟩ := hd.mapping
  obtain ⟨k, hs, hentry⟩ := Entries.mem_of_find? hr
  rw [entries_registry h he hk] at hentry
  obtain ⟨m, hm, hpair⟩ := List.mem_map.mp hentry
  obtain ⟨rfl, rfl⟩ := Prod.mk.inj hpair
  obtain ⟨schema, hschema⟩ := exists_definition_of_mem hd hm
  exact ⟨_, schema, rfl, hschema, definition?_congr hs ▸ hschema⟩

end Converter

/-- Parsing a value with a node agrees with what a schema accepts. -/
structure Agrees (definitions : Value) (schema : Entries Value) (registry : Registry) (node : Node)
    (v : Value) : Prop where
  /-- An answer is right. -/
  right : ∀ result, (parse registry node (some v)).outcome = .ok result →
    ((∃ data, result = .ok data) ↔ Accepts definitions schema v)
  /-- There is one when all lengths and all of the value can be written. -/
  answered : (∀ name sub, Reference.definition? definitions name = .ok (some sub) →
      Throughout HasWritableLengths sub) → v.IsWritable →
    ∃ result, (parse registry node (some v)).outcome = .ok result

/-- Where definitions are well formed and none is inside itself, and no name comes to itself through
references and options alone, parsing a value with the entry of a name decides whether the
definition of the name accepts the value. -/
theorem parse_decides {document definitions : Value}
    (hdoc : definitionsOf document = .ok definitions) (hd : AreDefinitions definitions)
    (hf : AreFinite definitions) (hn : NamesApart definitions) :
    ∃ c, convertDocument document = .ok c ∧ ∀ name node,
      Entries.find? name c.registry.entries = some node →
      ∃ schema, Reference.definition? definitions name = .ok (some schema) ∧
        ∀ v, v.isFinite = true → Agrees definitions schema c.registry node v := by
  obtain ⟨entries, he, -⟩ := hd.mapping
  have hc : ∃ c, convertDocument document = .ok c ∧ c.definitions = definitions := by
    refine ⟨_, exceptBind_eq_ok.mpr ⟨_, exceptBind_eq_ok.mpr ⟨definitions, hdoc, rfl⟩,
      exceptBind_eq_ok.mpr ⟨entries, ?_, rfl⟩⟩, rfl⟩
    simp [Value.entriesOf, he]
  obtain ⟨c, hc, rfl⟩ := hc
  refine ⟨c, hc, fun name node hr => ?_⟩
  obtain ⟨ref, schema, rfl, href, hname⟩ := Converter.exists_definition_of_registered hc hd hr
  refine ⟨schema, hname, fun v hv => ?_⟩
  have ha := Converter.isAcyclic hd hf hn
  have hv' : ∀ w ∈ some v, w.isFinite = true := by simpa using hv
  refine ⟨fun result hresult => ?_, fun hl hw => ?_⟩
  · obtain ⟨verdict, hverdict, rfl⟩ := parse_eq_ok.mp hresult
    have hdecides : Decides (validateAt c.registry (.lazy ref) (some v) [])
        (Allows c.definitions schema (some v)) :=
      decides_lazy ha hd hf hv' href fun body _ => judged ha hd hf body hv'
    refine Iff.trans ?_ (hdecides verdict hverdict)
    cases verdict.issues <;> simp
  · have hsound : IsSound (.lazy ref, some v) := ⟨.lazy, by simpa using hw⟩
    obtain ⟨verdict, hverdict⟩ := exists_verdict ha c.registry_isClosed
      (Converter.hasRegularBodies hd hf hl) hv' hsound []
    exact ⟨_, parse_eq_ok.mpr ⟨verdict, hverdict, rfl⟩⟩

/-- A document with one definition. -/
def documentOf (name : Text) (v : Value) : Value :=
  .map [("components", .map [("schemas", .map [(.text name, v)])])]

/-- The definitions of a document with one. -/
theorem definitionsOf_documentOf (name : Text) (v : Value) :
    definitionsOf (documentOf name v) = .ok (.map [(.text name, v)]) := rfl

section Single

variable {name : Text} {v : Value} {schema : Entries Value}

/-- A single definition is the only one. -/
theorem definition?_single {key : Key} {found : Entries Value}
    (h : Reference.definition? (.map [(.text name, v)]) key = .ok (some found)) :
    v.entries? = some found := by
  obtain ⟨entries, w, he, hw, hf⟩ := definition?_eq_some.mp h
  cases he
  obtain ⟨k, -, hm⟩ := Entries.mem_of_find? hw
  obtain ⟨-, rfl⟩ : k = .text name ∧ w = v := by simpa using hm
  exact hf

/-- A single well-formed schema is a definition. -/
theorem areDefinitions_single (hv : v.entries? = some schema) (hs : IsSchema schema) :
    AreDefinitions (.map [(.text name, v)]) where
  mapping := ⟨_, rfl, by simp [KeysDiffer, Entries.keys]⟩
  schemas := by
    intro key found h
    obtain rfl : schema = found := by simpa [hv] using definition?_single h
    exact hs

/-- A single definition that comes to no name leaves names apart. -/
theorem namesApart_single (hv : v.entries? = some schema) (hc : ∀ t, ¬ ComesTo schema t) :
    NamesApart (.map [(.text name, v)]) := by
  intro key h
  obtain ⟨next, ⟨found, hf, hcomes⟩, -⟩ := Relation.TransGen.head'_iff.mp h
  obtain rfl : schema = found := by simpa [hv] using definition?_single hf
  exact hc next hcomes

/-- A schema that is decided by its type comes to no name. -/
theorem not_comesTo {t : Text} (h : decisive schema = none) : ¬ ComesTo schema t := by
  intro hc
  cases hc with
  | reference hr => simp [decisive, leadingKeywords, Entries.has, hr] at h
  | option ho =>
    obtain ⟨keyword, -, hd, -⟩ := ho
    simp [h] at hd

end Single

/-- A reference to lists. -/
def linkSchema : Entries Value := [("$ref", "#/components/schemas/List")]

/-- Lists that go on with a list, if at all. -/
def listSchema : Entries Value :=
  [("type", "object"), ("properties", .map [("next", .map linkSchema)])]

/-- The schema of lists is well formed. -/
theorem isSchema_listSchema : IsSchema listSchema := by
  refine .of_parts ?_ fun sub h => ?_
  · constructor <;> simp +decide [listSchema, Entries.find?, memberKeywords, lengthKeywords,
      Value.entries?, Value.shape, KeysDiffer, Entries.keys]
  · obtain rfl : sub = linkSchema := by
      cases h with
      | member hk hl _ _ =>
        obtain ⟨v, hv, -⟩ := hl
        simp only [memberKeywords, List.mem_cons, List.not_mem_nil, or_false] at hk
        rcases hk with rfl | rfl | rfl <;> cases hv
      | property hv hd hm hs =>
        cases hv
        cases hd
        obtain rfl := List.mem_singleton.mp hm
        exact (Option.some.inj hs).symm
      | items hv _ => cases hv
    refine .of_parts ?_ fun sub h => absurd h (not_inside (by decide))
    constructor <;> simp +decide [linkSchema, Entries.find?, memberKeywords, lengthKeywords]

/-- The definition of lists. -/
def listDefinitions : Value := .map [("List", .map listSchema)]

/-- Parsing decides which values are lists. -/
theorem parse_decides_list :
    definitionsOf (documentOf "List" (.map listSchema)) = .ok listDefinitions ∧
    AreDefinitions listDefinitions ∧ AreFinite listDefinitions ∧ NamesApart listDefinitions ∧
    ∃ c, convertDocument (documentOf "List" (.map listSchema)) = .ok c ∧ ∀ name node,
      Entries.find? name c.registry.entries = some node →
      ∃ schema, Reference.definition? listDefinitions name = .ok (some schema) ∧
        ∀ v, v.isFinite = true → Agrees listDefinitions schema c.registry node v := by
  have hd : AreDefinitions listDefinitions := areDefinitions_single rfl isSchema_listSchema
  have hf : AreFinite listDefinitions := by
    intro name schema h
    obtain rfl := Option.some.inj (definition?_single h)
    rfl
  have hn : NamesApart listDefinitions := namesApart_single rfl fun t => not_comesTo (by decide)
  exact ⟨rfl, hd, hf, hn, parse_decides rfl hd hf hn⟩

/-- Texts that are at least so long. -/
def longSchema (n : Nat) : Entries Value := [("type", "string"), ("minLength", .int n)]

/-- Texts. -/
def textSchema : Entries Value := [("type", "string")]

/-- Texts, whether at least so long or not. -/
def eitherSchema (n : Nat) : Entries Value :=
  [("anyOf", .list [.map (longSchema n), .map textSchema])]

/-- The options of texts that are long or not. -/
theorem hasOptions_eitherSchema (n : Nat) :
    HasOptions (eitherSchema n) [.map (longSchema n), .map textSchema] :=
  ⟨"anyOf", .inl rfl, rfl, _, rfl, rfl⟩

/-- The schema of texts that are long or not is well formed. -/
theorem isSchema_eitherSchema (n : Nat) : IsSchema (eitherSchema n) := by
  have hlong : IsSchema (longSchema n) := by
    refine .of_parts ?_ fun sub h => absurd h (not_inside ?_)
    · constructor <;> simp +decide [longSchema, Entries.find?, memberKeywords, lengthKeywords]
    · simp +decide [longSchema, Entries.find?, nestingKeywords, memberKeywords]
  have htext : IsSchema textSchema := by
    refine .of_parts ?_ fun sub h => absurd h (not_inside (by decide))
    constructor <;> simp +decide [textSchema, Entries.find?, memberKeywords, lengthKeywords]
  refine .of_parts ?_ fun sub h => ?_
  · constructor <;> simp +decide [eitherSchema, Entries.find?, memberKeywords, lengthKeywords,
      Value.entries?, Value.shape]
  · cases h with
    | member hk hl hm hs =>
      obtain ⟨v, hv, hshape⟩ := hl
      simp only [memberKeywords, List.mem_cons, List.not_mem_nil, or_false] at hk
      rcases hk with rfl | rfl | rfl
      · cases hv
      · cases hv
        cases hshape
        simp only [List.mem_cons, List.not_mem_nil, or_false] at hm
        rcases hm with rfl | rfl
        · exact Option.some.inj hs ▸ hlong
        · exact Option.some.inj hs ▸ htext
      · cases hv
    | property hv _ _ _ => cases hv
    | items hv _ => cases hv

section Either

variable {n : Nat}

/-- The definition of texts that are long or not. -/
def eitherDefinitions (n : Nat) : Value := .map [("A", .map (eitherSchema n))]

/-- The schema of texts that are long or not comes to no name. -/
theorem not_comesTo_eitherSchema (t : Text) : ¬ ComesTo (eitherSchema n) t := by
  intro hc
  cases hc with
  | reference hr => cases hr
  | option ho hm hs hrest =>
    obtain rfl := (hasOptions_eitherSchema n).unique ho
    simp only [List.mem_cons, List.not_mem_nil, or_false] at hm
    rcases hm with rfl | rfl
    · exact not_comesTo rfl (Option.some.inj hs ▸ hrest)
    · exact not_comesTo rfl (Option.some.inj hs ▸ hrest)

/-- The schema of texts that are long or not makes well-formed definitions. -/
theorem areDefinitions_either : AreDefinitions (eitherDefinitions n) ∧
    AreFinite (eitherDefinitions n) ∧ NamesApart (eitherDefinitions n) := by
  refine ⟨areDefinitions_single rfl (isSchema_eitherSchema n), fun name schema h => ?_,
    namesApart_single rfl not_comesTo_eitherSchema⟩
  obtain rfl := Option.some.inj (definition?_single h)
  rfl

/-- A short text is accepted by the schema of texts that are long or not. -/
theorem accepts_eitherSchema : Accepts (eitherDefinitions n) (eitherSchema n) "a" := by
  have htext : Accepts (eitherDefinitions n) textSchema "a" := by
    refine .asked (.text ⟨rfl, rfl⟩ rfl ?_)
    constructor <;> simp +decide [textSchema, Entries.find?]
  exact .asked (.option (hasOptions_eitherSchema n) (.tail _ (.head _)) rfl htext)

/-- There is no answer about a short text where the length cannot be written: it is too short for
the first option, and that cannot be said. -/
theorem parse_eitherSchema (hn : Numeral.integer? n = none) (hl : 1 < n) {c : Converter}
    (hc : convertDocument (documentOf "A" (.map (eitherSchema n))) = .ok c) :
    (parse c.registry (.lazy ⟨"A", 1⟩) (some "a")).outcome = .error .tooManyDigits := by
  have hdef : c.definitions = eitherDefinitions n := by
    cases hc
    rfl
  obtain ⟨hd, hf, hnames⟩ := hdef ▸ areDefinitions_either (n := n)
  have judging (node : Node) : validateAt c.registry node (some "a") [] = _ :=
    validateAt_eq (Converter.isAcyclic hd hf hnames) c.registry_isClosed node
      (by rintro v ⟨⟩; rfl) []
  have hbody : c.registry.body ⟨"A", 1⟩ =
      .ok (.union [.string [⟨.min, .int n⟩], .string []]) := by
    cases hc
    rfl
  refine Traced.bind_eq_error.mpr (.inl ?_)
  rw [validate, judging]
  refine Traced.bind_eq_error.mpr (.inr ⟨_, Registry.resolve_eq_ok.mpr hbody, ?_⟩)
  rw [judging]
  refine Traced.bind_eq_error.mpr (.inl ?_)
  rw [judging]
  refine Traced.bind_eq_error.mpr (.inl ?_)
  exact exceptBind_eq_error.mpr (.inl (checkIssues_unwritable hn hl))

end Either

/-- An object with a property that is the object itself. -/
def loopSchema : Entries Value := [("type", "object"), ("properties", .knot loop 1)]

/-- The schema of an object inside itself is well formed. -/
theorem isSchema_loopSchema : IsSchema loopSchema := by
  have hs : IsShaped loopSchema := by
    constructor <;> simp +decide [loopSchema, Entries.find?, memberKeywords, lengthKeywords]
    refine ⟨_, rfl, by simp [KeysDiffer, Entries.keys], fun key part hm => ?_⟩
    obtain ⟨rfl, rfl⟩ : key = .text "x" ∧ part = .knot loop 0 := by
      simpa [Value.ofStrand] using hm
    exact ⟨⟨_, rfl⟩, .inr ⟨_, rfl⟩⟩
  intro sub h
  suffices he : sub = loopSchema by rwa [he]
  induction h using Relation.ReflTransGen.head_induction_on with
  | refl => rfl
  | head h _ ih =>
    subst ih
    cases h with
    | member hk hl _ _ =>
      obtain ⟨v, hv, -⟩ := hl
      simp only [memberKeywords, List.mem_cons, List.not_mem_nil, or_false] at hk
      rcases hk with rfl | rfl | rfl <;> cases hv
    | property hv hd hm hs =>
      cases hv
      cases hd
      obtain rfl := List.mem_singleton.mp hm
      exact (Option.some.inj hs).symm
    | items hv _ => cases hv

/-- There is no answer about a text that is accepted where a length has too many digits, and none
about a mapping that is accepted where a definition is inside itself. -/
theorem parse_without_answer :
    (definitionsOf (documentOf "A" (.map (eitherSchema greatNumber))) =
        .ok (eitherDefinitions greatNumber) ∧
      AreDefinitions (eitherDefinitions greatNumber) ∧ AreFinite (eitherDefinitions greatNumber) ∧
      NamesApart (eitherDefinitions greatNumber) ∧
      Accepts (eitherDefinitions greatNumber) (eitherSchema greatNumber) "a" ∧
      ∃ c node, convertDocument (documentOf "A" (.map (eitherSchema greatNumber))) = .ok c ∧
        Entries.find? "A" c.registry.entries = some node ∧
        (parse c.registry node (some "a")).outcome = .error .tooManyDigits) ∧
    definitionsOf (documentOf "A" (.knot loop 0)) = .ok (.map [("A", .knot loop 0)]) ∧
      AreDefinitions (.map [("A", .knot loop 0)]) ∧ NamesApart (.map [("A", .knot loop 0)]) ∧
      Accepts (.map [("A", .knot loop 0)]) loopSchema (.map []) ∧
      ∃ c node, convertDocument (documentOf "A" (.knot loop 0)) = .ok c ∧
        Entries.find? "A" c.registry.entries = some node ∧
        (parse c.registry node (some (.map []))).outcome = .error .endless := by
  have hfault : ∀ n, Numeral.integer? (n : Nat) = none → 1 < n →
      ∃ c node, convertDocument (documentOf "A" (.map (eitherSchema n))) = .ok c ∧
        Entries.find? "A" c.registry.entries = some node ∧
        (parse c.registry node (some "a")).outcome = .error .tooManyDigits :=
    fun n hn hl => ⟨_, _, rfl, rfl, parse_eitherSchema hn hl rfl⟩
  obtain ⟨hd, hf, hnames⟩ := areDefinitions_either (n := greatNumber)
  refine ⟨⟨definitionsOf_documentOf _ _, hd, hf, hnames, accepts_eitherSchema, 
      hfault _ integer?_greatNumber one_lt_greatNumber⟩,
    definitionsOf_documentOf _ _, areDefinitions_single rfl isSchema_loopSchema,
    namesApart_single rfl fun t => not_comesTo (by decide), ?_, _, _, rfl, rfl, rfl⟩
  refine .asked (.object (.own ⟨rfl, rfl⟩) rfl ?_ ?_)
  · rintro key sub inner w - - ⟨⟩
  · rintro key sub inner - - - ⟨m, hm, names, ⟨v, hv, -⟩, -⟩
    obtain rfl := List.mem_singleton.mp hm
    cases hv

end ZodSchemas
