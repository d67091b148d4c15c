import ZodSchemas.Proofs.Conversion.Bodies
import ZodSchemas.Proofs.Schema.Topic
import ZodSchemas.Proofs.Validation.Verdict

/-!
# Conversion and validation decide what schemas accept

The node of a well-formed schema accepts what the schema accepts. The proof goes
along the calls of validation: a call about the node of a schema is decided by
calls about the nodes of the schemas that the meaning of the schema speaks of.
A single option stands for itself, so there the schema gets smaller instead.
-/

namespace ZodSchemas

open Validation

/-- A schema accepts a value, or the absence of one. -/
def Allows (definitions : Value) (schema : Entries Value) : Option Value → Prop
  | some v => Accepts definitions schema v
  | none => AcceptsAbsent definitions schema

/-- Validation with the node of a schema decides whether the schema accepts a value, or the
absence of one. -/
def Judged (c : Converter) (call : Call) : Prop :=
  ∀ schema, IsSchema schema → (Value.map schema).isFinite = true →
    c.source.Converts schema call.1 → ∀ path,
      Decides (validateAt c.registry call.1 call.2 path) (Allows c.definitions schema call.2)

/-- A value that is present or absent under a key is one that some members accept there. -/
def Suits (definitions : Value) (members : List (Entries Value)) (entries : Entries Value)
    (key : Key) : Prop :=
  ∀ sub inner, Governs members key sub → sub.entries? = some inner →
    match Entries.find? key entries with
    | some w => Accepts definitions inner w
    | none => Requires members key → AcceptsAbsent definitions inner

/-- A schema with members asks for a mapping with a suitable value under each key. -/
theorem asksFor_iff_suits {definitions : Value} {schema : Entries Value}
    {members : List (Entries Value)} {v : Value} (h : HasMembers schema members) :
    AsksFor definitions schema v ↔
      ∃ entries, v.entries? = some entries ∧ ∀ key, Suits definitions members entries key := by
  rw [asksFor_object h]
  refine exists_congr fun entries => and_congr_right fun _ => ?_
  constructor
  · rintro ⟨present, absent⟩ key sub inner hg hi
    cases hw : Entries.find? key entries with
    | some w => exact present key sub inner w hg hi hw
    | none => exact absent key sub inner hg hi hw
  · intro hs
    refine ⟨fun key sub inner w hg hi hw => ?_, fun key sub inner hg hi hw hr => ?_⟩
    · simpa [hw] using hs key sub inner hg hi
    · have hsuits := hs key sub inner hg hi
      rw [hw] at hsuits
      exact hsuits hr

/-- One schema governs a key. -/
theorem Governs.unique {members : List (Entries Value)} (hm : ∀ m ∈ members, IsShaped m)
    {key : Key} {sub other : Value} (h : Governs members key sub)
    (ho : Governs members key other) : sub = other := by
  rw [← Merged.find?_propertiesOfAll hm] at h ho
  exact Option.some.inj (h.symm.trans ho)

/-- The checks of a schema of texts let a text pass when it has the right length and format. -/
theorem stringChecks_pass {schema : Entries Value} (hs : IsShaped schema) {t : Text} :
    (∀ check ∈ stringChecks schema, checkIssues t check = .ok []) ↔ IsTextOf schema t := by
  constructor
  · intro h
    refine ⟨fun n hn => ?_, fun n hn => ?_, fun hf => ?_⟩
    · exact checkIssues_min.mp (h _ (Source.mem_stringChecks.mpr (.inl ⟨_, hn, rfl⟩)))
    · exact checkIssues_max.mp (h _ (Source.mem_stringChecks.mpr (.inr (.inl ⟨_, hn, rfl⟩))))
    · exact checkIssues_date.mp (h _ (Source.mem_stringChecks.mpr (.inr (.inr ⟨hf, rfl⟩))))
  · intro h check hm
    rcases Source.mem_stringChecks.mp hm with ⟨v, hv, rfl⟩ | ⟨v, hv, rfl⟩ | ⟨hf, rfl⟩
    · obtain ⟨n, rfl⟩ := hs.lengths "minLength" (by simp [lengthKeywords]) v hv
      exact checkIssues_min.mpr (h.least n hv)
    · obtain ⟨n, rfl⟩ := hs.lengths "maxLength" (by simp [lengthKeywords]) v hv
      exact checkIssues_max.mpr (h.greatest n hv)
    · exact checkIssues_date.mpr (h.date hf)

section Forms

variable {c : Converter} {schema : Entries Value} {node : Node} {v : Value} {path : Path}

/-- Validation of a value that is there and not inside itself is the rule. -/
theorem validateAt_some (ha : c.registry.IsAcyclic) (hv : v.isFinite = true) :
    validateAt c.registry node (some v) path =
      rule c.registry (validateAt c.registry) node (some v) path :=
  validateAt_eq ha c.registry_isClosed node (by simpa using hv) path

/-- A reference to a definition is decided by the node of the definition. -/
theorem decides_lazy (ha : c.registry.IsAcyclic) (hd : AreDefinitions c.definitions)
    (hf : AreFinite c.definitions) {ref : Ref} {value : Option Value}
    (hv : ∀ v ∈ value, v.isFinite = true)
    (hs : Reference.definition? c.definitions ref.name = .ok (some schema))
    (hbody : ∀ body, c.registry.body ref = .ok body → Judged c (body, value)) :
    Decides (validateAt c.registry (.lazy ref) value path) (Allows c.definitions schema value) := by
  rw [validateAt_eq ha c.registry_isClosed _ hv]
  intro verdict h
  obtain ⟨body, hb, h⟩ := Traced.bind_eq_ok.mp h
  have hb := Registry.resolve_eq_ok.mp hb
  rcases Converter.body_eq_ok.mp hb with ⟨other, ho, hc⟩ | ⟨hn, -⟩
  · obtain rfl : schema = other := by simpa [hs] using ho
    exact hbody body hb schema (hd.schemas _ _ hs) (hf _ _ hs) hc path verdict h
  · simp [hs] at hn

/-- A node that accepts anything decides what holds. -/
theorem decides_unknown (ha : c.registry.IsAcyclic) {value : Option Value} {p : Prop}
    (hv : ∀ v ∈ value, v.isFinite = true) (h : p) :
    Decides (validateAt c.registry .unknown value path) p := by
  rw [validateAt_eq ha c.registry_isClosed _ hv]
  exact decides_accept h

/-- A node that may be absent decides nothing about absence, and leaves other values to the node
inside. -/
theorem decides_optional (ha : c.registry.IsAcyclic) {value : Option Value} {p : Prop}
    (hv : ∀ v ∈ value, v.isFinite = true) (hn : value = none → p)
    (h : ∀ w path, value = some w → Decides (validateAt c.registry node (some w) path) p) :
    Decides (validateAt c.registry (.optional node) value path) p := by
  rw [validateAt_eq ha c.registry_isClosed _ hv]
  cases value with
  | none => exact decides_accept (hn rfl)
  | some w => exact h w path rfl

/-- The node of a property decides whether the value under its key is suitable. -/
theorem decides_property (ha : c.registry.IsAcyclic) {members : List (Entries Value)}
    {required : List Key} (hs : IsSchema schema) (hfs : (Value.map schema).isFinite = true)
    (hm : HasMembers schema members)
    (names : ∀ key, key.isAmong required = true ↔ Requires members key) {e : Key × Node}
    (he : c.source.IsProperty members required e) {entries : Entries Value}
    (hv : ∀ w ∈ Entries.find? e.1 entries, w.isFinite = true)
    (hj : Judged c (e.2, Entries.find? e.1 entries))
    (hopt : ∀ node w, e.2 = .optional node → Entries.find? e.1 entries = some w →
      Judged c (node, some w)) :
    Decides (validateAt c.registry e.2 (Entries.find? e.1 entries) path)
      (Suits c.definitions members entries e.1) := by
  obtain ⟨sub, inner, node, hg, hi, hc, hval⟩ := he
  have hin := Source.inside_of_governs hs hm hg hi
  have hsuits : Suits c.definitions members entries e.1 ↔
      match Entries.find? e.1 entries with
      | some w => Accepts c.definitions inner w
      | none => Requires members e.1 → AcceptsAbsent c.definitions inner := by
    refine ⟨fun h => h sub inner hg hi, fun h other found hg' hi' => ?_⟩
    obtain rfl := hg.unique (fun m hmem => (Source.members_spec hs hm m hmem).1) hg'
    obtain rfl : inner = found := by simpa [hi] using hi'
    exact h
  refine Decides.congr ?_ hsuits.symm
  by_cases hr : e.1.isAmong required = true
  · rw [if_pos hr] at hval
    rw [hval] at hj ⊢
    refine (hj inner (hs.inside hin) (isFinite_of_inside hfs hin) hc path).congr ?_
    cases Entries.find? e.1 entries with
    | some w => exact Iff.rfl
    | none => simp [Allows, (names e.1).mp hr]
  · rw [if_neg hr] at hval
    rw [hval]
    refine decides_optional ha hv (fun hn => ?_) fun w path hw => ?_
    · rw [hn]
      exact fun h => absurd ((names e.1).mpr h) hr
    · rw [hw]
      exact hopt node w hval hw inner (hs.inside hin) (isFinite_of_inside hfs hin) hc path

/-- The calls that a call leads to are judged. -/
def JudgedBelow (c : Converter) (call : Call) : Prop :=
  ∀ callee, Relation.TransGen (Calls c.registry) callee call → Judged c callee

/-- The node of an object decides what a schema with members asks for. -/
theorem decides_objectForm (ha : c.registry.IsAcyclic) (hd : AreDefinitions c.definitions)
    (hs : IsSchema schema) (hfs : (Value.map schema).isFinite = true)
    {members : List (Entries Value)} {nodes : Entries Node} {required : List Key}
    (hm : HasMembers schema members)
    (names : ∀ key, key.isAmong required = true ↔ Requires members key)
    (properties : ∀ e, e ∈ nodes ↔ c.source.IsProperty members required e)
    (hv : v.isFinite = true) (hb : JudgedBelow c (.object nodes required, some v)) :
    Decides (validateAt c.registry (.object nodes required) (some v) path)
      (AsksFor c.definitions schema v) := by
  rw [validateAt_some ha hv]
  have suitable : ∀ entries, (∀ e ∈ nodes, Suits c.definitions members entries e.1) ↔
      ∀ key, Suits c.definitions members entries key := by
    intro entries
    refine ⟨fun h key sub inner hg hi => ?_, fun h e _ => h e.1⟩
    -- A key that a schema governs is that of a property.
    obtain ⟨definitions, he, -⟩ := hd.mapping
    have hin := Source.inside_of_governs hs hm hg hi
    obtain ⟨node, hc⟩ := c.source.exists_converts he (hs.inside hin) (isFinite_of_inside hfs hin)
    exact h (key, if key.isAmong required then node else .optional node)
      ((properties _).mpr ⟨sub, inner, node, hg, hi, hc, rfl⟩) sub inner hg hi
  refine (decides_object (p := fun entries e => Suits c.definitions members entries e.1)
    fun entries he e hmem path => ?_).congr ?_
  · have hcall : Calls c.registry (e.2, Entries.find? e.1 entries)
        (.object nodes required, some v) := .enter (.property he hmem)
    refine decides_property ha hs hfs hm names ((properties e).mp hmem)
      (isFinite_of_calls hcall (by simpa using hv)) (hb _ (.single hcall)) fun node w hn hw => ?_
    have hopt : Calls c.registry (node, some w) (.optional node, some w) := .unwrap .optional
    rw [hn, hw] at hcall
    exact hb _ (.head hopt (.single hcall))
  · rw [asksFor_iff_suits hm]
    simp only [suitable]

/-- A union of the nodes of options decides whether one of the options accepts a value. -/
theorem decides_unionForm (ha : c.registry.IsAcyclic) (hs : IsSchema schema)
    (hfs : (Value.map schema).isFinite = true) {options : List Value} {nodes : List Node}
    (ho : HasOptions schema options)
    (hc : List.Forall₂ (fun m node => ∃ sub, m.entries? = some sub ∧ c.source.Converts sub node)
      options nodes)
    (hv : v.isFinite = true) (hb : JudgedBelow c (.union nodes, some v)) :
    Decides (validateAt c.registry (.union nodes) (some v) path)
      (∃ m ∈ options, ∃ sub, m.entries? = some sub ∧ Accepts c.definitions sub v) := by
  have judged : ∀ node ∈ nodes, ∀ m ∈ options, ∀ sub, m.entries? = some sub →
      c.source.Converts sub node → Decides (validateAt c.registry node (some v) path)
        (Accepts c.definitions sub v) := by
    intro node hn m hm sub hsub hconv
    have hin : Relation.TransGen Inside sub schema := .single (ho.inside hm hsub)
    have hcall : Calls c.registry (node, some v) (.union nodes, some v) := .unwrap (.option hn)
    exact hb _ (.single hcall) sub (hs.inside hin) (isFinite_of_inside hfs hin) hconv path
  rw [validateAt_some ha hv]
  refine (decides_firstVerdict (p := fun node => ∃ m ∈ options, ∃ sub, m.entries? = some sub ∧
    c.source.Converts sub node ∧ Accepts c.definitions sub v) fun node hn => ?_).congr ?_
  · intro verdict h
    constructor
    · intro he
      obtain ⟨m, hm, sub, hsub, hconv⟩ := exists_left_of_mem hc hn
      exact ⟨m, hm, sub, hsub, hconv, (judged node hn m hm sub hsub hconv verdict h).mp he⟩
    · rintro ⟨m, hm, sub, hsub, hconv, accepted⟩
      exact (judged node hn m hm sub hsub hconv verdict h).mpr accepted
  · constructor
    · rintro ⟨node, -, m, hm, sub, hsub, -, accepted⟩
      exact ⟨m, hm, sub, hsub, accepted⟩
    · rintro ⟨m, hm, sub, hsub, accepted⟩
      obtain ⟨node, hn, found, hfound, hconv⟩ := exists_right_of_mem hc hm
      obtain rfl : sub = found := by simpa [hsub] using hfound
      exact ⟨node, hn, m, hm, sub, hsub, hconv, accepted⟩

/-- The node of options decides what a schema with them asks for. A single option stands for
itself: that its node decides is known of the schema inside. -/
theorem decides_optionsForm (ha : c.registry.IsAcyclic) (hs : IsSchema schema)
    (hfs : (Value.map schema).isFinite = true) {options : List Value} {nodes : List Node}
    (ho : HasOptions schema options)
    (hc : List.Forall₂ (fun m node => ∃ sub, m.entries? = some sub ∧ c.source.Converts sub node)
      options nodes)
    (hv : v.isFinite = true) (hb : JudgedBelow c (Source.anyOf nodes, some v))
    (hi : ∀ sub, Relation.TransGen Inside sub schema → c.source.Converts sub (Source.anyOf nodes) →
      Decides (validateAt c.registry (Source.anyOf nodes) (some v) path)
        (Accepts c.definitions sub v)) :
    Decides (validateAt c.registry (Source.anyOf nodes) (some v) path)
      (AsksFor c.definitions schema v) := by
  refine Decides.congr ?_ (asksFor_options ho).symm
  match nodes, hc with
  | [], .nil =>
    rw [Source.anyOf, validateAt_some ha hv]
    exact decides_reject (by simp)
  | [node], .cons ⟨sub, hsub, hconv⟩ .nil =>
    exact (hi sub (.single (ho.inside (by simp) hsub)) hconv).congr (by simp [hsub])
  | _ :: _ :: _, hc => exact decides_unionForm ha hs hfs ho hc hv hb

/-- The node of a list decides what a schema of lists asks for. -/
theorem decides_arrayForm (ha : c.registry.IsAcyclic) (hs : IsSchema schema)
    (hfs : (Value.map schema).isFinite = true) {w : Value} {sub : Entries Value} {element : Node}
    (h : HasType schema "array") (found : Entries.find? "items" schema = some w)
    (mapping : w.entries? = some sub) (hc : c.source.Converts sub element)
    (hv : v.isFinite = true) (hb : JudgedBelow c (.array element, some v)) :
    Decides (validateAt c.registry (.array element) (some v) path)
      (AsksFor c.definitions schema v) := by
  refine Decides.congr ?_ (asksFor_array h).symm
  have hin : Relation.TransGen Inside sub schema := .single (.items found mapping)
  rw [validateAt_some ha hv]
  refine (decides_array (p := Accepts c.definitions sub) fun items hitems u hu path => ?_).congr ?_
  · have hcall : Calls c.registry (element, some u) (.array element, some v) :=
      .enter (.element hitems hu)
    exact hb _ (.single hcall) sub (hs.inside hin) (isFinite_of_inside hfs hin) hc path
  · refine exists_congr fun items => and_congr_right fun _ => ?_
    constructor
    · intro hall other inner u hother hinner hu
      obtain rfl : w = other := by simpa [found] using hother
      obtain rfl : sub = inner := by simpa [mapping] using hinner
      exact hall u hu
    · exact fun hall u hu => hall w sub u found mapping hu

/-- A value matches one of some texts when it is one of them. -/
theorem exists_isMatch_texts {texts : List Text} :
    (∃ allowed ∈ texts.map Value.text, allowed.isMatch v = true) ↔ v ∈ texts.map Value.text := by
  constructor
  · rintro ⟨w, hmem, hmatch⟩
    obtain ⟨t, ht, rfl⟩ := List.mem_map.mp hmem
    rw [Value.isMatch_text.mp hmatch]
    exact hmem
  · intro hmem
    obtain ⟨t, ht, rfl⟩ := List.mem_map.mp hmem
    exact ⟨_, hmem, Value.isMatch_text.mpr rfl⟩

/-- The node of what a schema asks for decides that of a value. -/
theorem decides_present (ha : c.registry.IsAcyclic) (hd : AreDefinitions c.definitions)
    (hf : AreFinite c.definitions) (hs : IsSchema schema)
    (hfs : (Value.map schema).isFinite = true) (hform : c.source.HasForm schema node)
    (hv : v.isFinite = true) (hb : JudgedBelow c (node, some v))
    (hi : ∀ sub, Relation.TransGen Inside sub schema → c.source.Converts sub node →
      Decides (validateAt c.registry node (some v) path) (Accepts c.definitions sub v)) :
    Decides (validateAt c.registry node (some v) path) (AsksFor c.definitions schema v) := by
  have hv' : ∀ w ∈ some v, w.isFinite = true := by simpa using hv
  cases hform with
  | @reference t target found defined =>
    refine Decides.congr ?_ (asksFor_reference ⟨t, found, defined⟩).symm
    exact decides_lazy ha hd hf hv' defined fun body hbody => hb _ (.single (.follow hbody))
  | dangling h => exact decides_unknown ha hv' (.dangling h)
  | object hm names properties => exact decides_objectForm ha hd hs hfs hm names properties hv hb
  | options ho hc => exact decides_optionsForm ha hs hfs ho hc hv hb hi
  | array h found mapping hc => exact decides_arrayForm ha hs hfs h found mapping hc hv hb
  | list h free =>
    refine Decides.congr ?_ (asksFor_array h).symm
    rw [validateAt_some ha hv]
    refine (decides_array (p := fun _ => True) fun items hitems u hu path => ?_).congr
      (by simp [free])
    have hcall : Calls c.registry (.unknown, some u) (.array .unknown, some v) :=
      .enter (.element hitems hu)
    exact decides_unknown ha (isFinite_of_calls hcall hv') trivial
  | choice h listed =>
    refine Decides.congr ?_ (asksFor_choice h listed).symm
    rw [validateAt_some ha hv]
    exact decides_ofValues.congr exists_isMatch_texts
  | text h free =>
    refine Decides.congr ?_ (asksFor_text h free).symm
    rw [validateAt_some ha hv]
    exact decides_string.congr (by simp only [stringChecks_pass hs.self])
  | number h =>
    rw [validateAt_some ha hv]
    exact decides_number.congr (asksFor_number h).symm
  | boolean h =>
    rw [validateAt_some ha hv]
    exact decides_boolean.congr (asksFor_boolean h).symm
  | nothing h => exact decides_unknown ha hv' (.nothing h)

/-- The node of what a schema asks for decides whether that may be absent, unless null may stand
for it. -/
theorem decides_absent (ha : c.registry.IsAcyclic) (hd : AreDefinitions c.definitions)
    (hf : AreFinite c.definitions) (hform : c.source.HasForm schema node)
    (hp : ¬ AcceptsNull schema) (hb : JudgedBelow c (node, none))
    (hi : ∀ sub, Relation.TransGen Inside sub schema → c.source.Converts sub node →
      Decides (validateAt c.registry node none path) (AcceptsAbsent c.definitions sub)) :
    Decides (validateAt c.registry node none path) (AcceptsAbsent c.definitions schema) := by
  have hv : ∀ w ∈ (none : Option Value), w.isFinite = true := by simp
  have judging (node : Node) : validateAt c.registry node none path = _ :=
    validateAt_eq ha c.registry_isClosed node hv path
  cases hform with
  | @reference t target found defined =>
    refine Decides.congr ?_ (acceptsAbsent_reference hp ⟨t, found, defined⟩).symm
    exact decides_lazy ha hd hf hv defined fun body hbody => hb _ (.single (.follow hbody))
  | dangling h => exact decides_unknown ha hv (.dangling hp h)
  | nothing h => exact decides_unknown ha hv (.nothing hp h)
  | @options options nodes ho hc =>
    refine Decides.congr ?_ (acceptsAbsent_options hp ho).symm
    match nodes, hc with
    | [], .nil =>
      rw [Source.anyOf, judging]
      exact decides_reject (by simp)
    | [node], .cons ⟨sub, hsub, hconv⟩ .nil =>
      exact (hi sub (.single (ho.inside (by simp) hsub)) hconv).congr (by simp [hsub])
    | node :: second :: rest, .cons _ (.cons _ _) =>
      change Decides (validateAt c.registry (.union (node :: second :: rest)) none path) _
      rw [judging]
      exact decides_reject (by simp)
  | object hm _ _ =>
    rw [judging]
    exact decides_reject (not_acceptsAbsent (by rw [hm.topic]; decide))
  | array h _ _ _ =>
    rw [judging]
    exact decides_reject (not_acceptsAbsent (by rw [h.topic]; decide))
  | list h _ =>
    rw [judging]
    exact decides_reject (not_acceptsAbsent (by rw [h.topic]; decide))
  | choice h _ =>
    rw [judging, rule, ruleOf_ofValues_none]
    exact decides_reject (not_acceptsAbsent (by rw [h.topic]; decide))
  | text h _ =>
    rw [judging]
    exact decides_reject (not_acceptsAbsent (by rw [h.topic]; decide))
  | number h =>
    rw [judging]
    exact decides_reject (not_acceptsAbsent (by rw [topic_number h]; decide))
  | boolean h =>
    rw [judging]
    exact decides_reject (not_acceptsAbsent (by rw [h.topic]; decide))

/-- A schema accepts what it asks for, and null if it says so. -/
theorem accepts_iff {definitions : Value} :
    Accepts definitions schema v ↔
      AcceptsNull schema ∧ v = .null ∨ AsksFor definitions schema v := by
  constructor
  · intro h
    cases h with
    | null hn => exact .inl ⟨hn, rfl⟩
    | asked ha => exact .inr ha
  · rintro (⟨hn, rfl⟩ | ha)
    · exact .null hn
    · exact .asked ha

/-- A call about the node of a schema is decided when the calls that it leads to are, and the same
call where it is about the nodes of schemas inside. -/
theorem decides_wrapped (ha : c.registry.IsAcyclic) (hd : AreDefinitions c.definitions)
    (hf : AreFinite c.definitions) (hs : IsSchema schema)
    (hfs : (Value.map schema).isFinite = true) (hform : c.source.HasForm schema node)
    {value : Option Value} (hv : ∀ v ∈ value, v.isFinite = true)
    (hb : JudgedBelow c (Source.wrapped schema node, value))
    (hi : ∀ sub, Relation.TransGen Inside sub schema →
      c.source.Converts sub (Source.wrapped schema node) →
      Decides (validateAt c.registry (Source.wrapped schema node) value path)
        (Allows c.definitions sub value)) :
    Decides (validateAt c.registry (Source.wrapped schema node) value path)
      (Allows c.definitions schema value) := by
  by_cases hn : AcceptsNull schema
  · have hw : Source.wrapped schema node = .nullable node :=
      if_pos ((Source.isNullable_iff hs.self).mpr hn)
    rw [hw] at hb ⊢
    rw [validateAt_eq ha c.registry_isClosed _ hv]
    cases value with
    | none => exact decides_reject fun h => h.present hn
    | some v =>
      refine (decides_nullable (p := AsksFor c.definitions schema v) fun hne => ?_).congr
        (by simp [Allows, accepts_iff, hn])
      have hcall : Calls c.registry (node, some v) (.nullable node, some v) :=
        .unwrap (.nullable hne)
      refine decides_present ha hd hf hs hfs hform (hv v rfl)
        (fun callee h => hb callee (h.tail hcall)) fun sub hin hc => ?_
      exact hb _ (.single hcall) sub (hs.inside hin) (isFinite_of_inside hfs hin) hc path
  · have hw : Source.wrapped schema node = node :=
      if_neg fun h => hn ((Source.isNullable_iff hs.self).mp h)
    rw [hw] at hb hi ⊢
    cases value with
    | none => exact decides_absent ha hd hf hform hn hb hi
    | some v =>
      exact (decides_present ha hd hf hs hfs hform (hv v rfl) hb hi).congr
        (by simp [Allows, accepts_iff, hn])

/-- Validation with the node of a schema decides whether the schema accepts a value. -/
theorem judged (ha : c.registry.IsAcyclic) (hd : AreDefinitions c.definitions)
    (hf : AreFinite c.definitions) (node : Node) {value : Option Value}
    (hv : ∀ v ∈ value, v.isFinite = true) : Judged c (node, value) := by
  have hcalls := (acc_calls ha c.registry_isClosed node hv).transGen
  suffices main : ∀ call, Acc (Relation.TransGen (Calls c.registry)) call →
      (∀ v ∈ call.2, v.isFinite = true) → Judged c call from main _ hcalls hv
  intro call hcall
  induction hcall with
  | intro call _ ih =>
    intro hv schema hs hfs hc path
    have hb : JudgedBelow c call := fun callee h =>
      ih callee h (isFinite_of_chain h.to_reflTransGen hv)
    obtain ⟨definitions, he, -⟩ := hd.mapping
    revert hs hc
    refine schema_induction (motive := fun schema => IsSchema schema →
      c.source.Converts schema call.1 →
      Decides (validateAt c.registry call.1 call.2 path) (Allows c.definitions schema call.2))
      (fun schema hfs ihs hs hc => ?_) hfs
    obtain ⟨inner, hform, hnode⟩ := Source.hasForm_of_converts he hs hfs hc
    obtain ⟨node, value⟩ := call
    obtain rfl : node = Source.wrapped schema inner := hnode
    exact decides_wrapped ha hd hf hs hfs hform hv hb fun sub hin hc =>
      ihs sub hin (hs.inside hin) hc

end Forms

end ZodSchemas
