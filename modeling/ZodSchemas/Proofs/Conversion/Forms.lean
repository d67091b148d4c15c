import Mathlib.Data.List.Forall2
import ZodSchemas.Proofs.Conversion.Merging

/-!
# The nodes of well-formed schemas

A well-formed schema is converted, and its node has the form that the first
deciding keyword gives it: there is one form of node for each thing that a
schema can ask for. The nodes inside are those of the schemas inside.
-/

namespace ZodSchemas

namespace Source

variable {source : Source}

/-- A schema is converted to a node. -/
def Converts (source : Source) (schema : Entries Value) (node : Node) : Prop :=
  (source.convert (.map schema)).outcome = .ok node

/-- The node of a property that some members declare. -/
def IsProperty (source : Source) (members : List (Entries Value)) (required : List Key)
    (e : Key × Node) : Prop :=
  ∃ sub inner node, Governs members e.1 sub ∧ sub.entries? = some inner ∧
    source.Converts inner node ∧ e.2 = if e.1.isAmong required then node else .optional node

/-- The node of what a schema asks for. -/
inductive HasForm (source : Source) (schema : Entries Value) : Node → Prop where
  /-- A reference to a definition. -/
  | reference {t : Text} {target : Entries Value}
      (found : Entries.find? "$ref" schema = some (.text t))
      (defined : Reference.definition? source.definitions (.text (t.afterLast '/')) =
        .ok (some target)) : HasForm source schema (.lazy ⟨.text (t.afterLast '/'), source.round⟩)
  /-- A reference to no definition. -/
  | dangling (h : RefersTo source.definitions schema none) : HasForm source schema .unknown
  /-- An object. -/
  | object {members : List (Entries Value)} {nodes : Entries Node} {required : List Key}
      (h : HasMembers schema members)
      (names : ∀ key, key.isAmong required = true ↔ Requires members key)
      (properties : ∀ e, e ∈ nodes ↔ source.IsProperty members required e) :
      HasForm source schema (.object nodes required)
  /-- Options, taken together. -/
  | options {options : List Value} {nodes : List Node} (h : HasOptions schema options)
      (converted : List.Forall₂ (fun m node => ∃ sub, m.entries? = some sub ∧
        source.Converts sub node) options nodes) : HasForm source schema (anyOf nodes)
  /-- A list of elements. -/
  | array {v : Value} {sub : Entries Value} {element : Node} (h : HasType schema "array")
      (found : Entries.find? "items" schema = some v) (mapping : v.entries? = some sub)
      (converted : source.Converts sub element) : HasForm source schema (.array element)
  /-- A list of anything. -/
  | list (h : HasType schema "array") (free : Entries.find? "items" schema = none) :
      HasForm source schema (.array .unknown)
  /-- One of several texts. -/
  | choice {texts : List Text} (h : HasType schema "string")
      (listed : Lists schema "enum" (texts.map .text)) :
      HasForm source schema (.ofValues (texts.map .text))
  /-- A text. -/
  | text (h : HasType schema "string") (free : Entries.find? "enum" schema = none) :
      HasForm source schema (.string (stringChecks schema))
  /-- A number. -/
  | number (h : HasType schema "number" ∨ HasType schema "integer") : HasForm source schema .number
  /-- A truth value. -/
  | boolean (h : HasType schema "boolean") : HasForm source schema .boolean
  /-- Anything. -/
  | nothing (h : AsksNothing schema) : HasForm source schema .unknown

/-- Mappings with the same entries are converted alike. -/
theorem convert_map {v : Value} {schema : Entries Value} (hv : v.isFinite = true)
    (h : v.entries? = some schema) : source.convert v = source.convert (.map schema) := by
  rw [convert_eq source hv, convert_eq source ((Value.isFinite_map_iff h).mpr hv), ofSchema,
    ofSchema, h]
  rfl

section Properties

variable {convert : Value → Conversion Node}

/-- Properties are converted when their schemas are, each to the node of its schema. -/
theorem exists_properties (required : List Key) {entries : Entries Value}
    (h : ∀ e ∈ entries, e.2 ≠ .null → ∃ node, (convert e.2).outcome = .ok node) :
    ∃ nodes, (properties convert required entries).outcome = .ok nodes ∧
      ∀ x, x ∈ nodes ↔ ∃ e ∈ entries, e.2 ≠ .null ∧ ∃ node, (convert e.2).outcome = .ok node ∧
        x = (e.1, if e.1.isAmong required then node else .optional node) := by
  induction entries with
  | nil => exact ⟨[], rfl, by simp⟩
  | cons e rest ih =>
    obtain ⟨key, schema⟩ := e
    obtain ⟨nodes, hn, hx⟩ := ih fun e he => h e (List.mem_cons_of_mem _ he)
    by_cases hs : schema = .null
    · subst hs
      refine ⟨nodes, hn, fun x => ?_⟩
      rw [hx]
      simp
    · obtain ⟨node, hc⟩ := h (key, schema) (by simp) hs
      refine ⟨(key, if key.isAmong required then node else .optional node) :: nodes, ?_,
        fun x => ?_⟩
      · rw [properties_cons hs]
        exact Traced.bind_eq_ok.mpr ⟨node, hc, Traced.bind_eq_ok.mpr ⟨nodes, hn, rfl⟩⟩
      · simp [hx, hs, hc]

end Properties

section Objects

variable {schema : Entries Value} {members : List (Entries Value)}

/-- The members of a well-formed schema are well formed: the schema itself, or ones inside. -/
theorem members_spec (hs : IsSchema schema) (h : HasMembers schema members) :
    ∀ m ∈ members, IsShaped m ∧ (m = schema ∨ Inside m schema) := by
  intro m hm
  cases h with
  | own _ =>
    obtain rfl : m = schema := by simpa using hm
    exact ⟨hs.self, .inl rfl⟩
  | @allOf items _ hl =>
    obtain ⟨w, hw, he⟩ := List.mem_filterMap.mp (List.mem_filter.mp hm).1
    have hi : Inside m schema := .member (by simp [memberKeywords]) hl hw he
    exact ⟨hs m (.single hi), .inr hi⟩

/-- The schema of a property of a schema is inside it. -/
theorem inside_of_mem_propertiesOf {e : Key × Value} {inner : Entries Value}
    (he : e ∈ propertiesOf schema) (hi : e.2.entries? = some inner) : Inside inner schema := by
  unfold propertiesOf at he
  split at he
  · next v hv =>
    cases hp : v.entries? with
    | none => simp [hp] at he
    | some entries => exact .property hv hp (by simpa [hp] using he) hi
  · simp at he

/-- The schema that governs a key of a well-formed schema is inside it. -/
theorem inside_of_governs (hs : IsSchema schema) (h : HasMembers schema members) {key : Key}
    {sub : Value} {inner : Entries Value} (hg : Governs members key sub)
    (hi : sub.entries? = some inner) : Relation.TransGen Inside inner schema := by
  have hm := members_spec hs h
  obtain ⟨-, -, m, hmem, he⟩ := hg.spec fun m hmem => (hm m hmem).1
  have hin := inside_of_mem_propertiesOf he hi
  rcases (hm m hmem).2 with rfl | hmi
  · exact .single hin
  · exact .head hin (.single hmi)

/-- The schemas inside a schema are converted. -/
def ConvertsInside (source : Source) (schema : Entries Value) : Prop :=
  ∀ v sub, v.entries? = some sub → Relation.TransGen Inside sub schema →
    ∃ node, source.Converts sub node ∧ (source.convert v).outcome = .ok node

/-- The schema that governs a key is converted to one node, in whatever way it is given. -/
theorem ConvertsInside.of_governs (hc : source.ConvertsInside schema) (hs : IsSchema schema)
    (h : HasMembers schema members) {key : Key} {sub : Value} {inner : Entries Value}
    (hg : Governs members key sub) (hi : sub.entries? = some inner) {node : Node} :
    (source.convert sub).outcome = .ok node ↔ source.Converts inner node := by
  obtain ⟨found, hfound, hconv⟩ := hc sub inner hi (inside_of_governs hs h hg hi)
  rw [hconv, Converts, hfound]

/-- The converted properties of well-formed members are the nodes of what governs their keys. -/
theorem ConvertsInside.isProperty_iff (hc : source.ConvertsInside schema) (hs : IsSchema schema)
    (h : HasMembers schema members) {required : List Key} {e : Key × Node} :
    source.IsProperty members required e ↔
      ∃ p ∈ Merged.propertiesOfAll members, p.2 ≠ .null ∧
        ∃ node, (source.convert p.2).outcome = .ok node ∧
          e = (p.1, if p.1.isAmong required then node else .optional node) := by
  have hm : ∀ m ∈ members, IsShaped m := fun m hmem => (members_spec hs h m hmem).1
  obtain ⟨-, hg⟩ := Merged.propertiesOfAll_spec hm
  constructor
  · rintro ⟨sub, inner, node, hgov, hi, hnode, hval⟩
    obtain ⟨k, hk, hmem⟩ := Entries.mem_of_find? ((Merged.find?_propertiesOfAll hm _ _).mpr hgov)
    obtain ⟨⟨t, ht⟩, -⟩ := (hg _ hmem).spec hm
    obtain rfl : k = .text t := ht
    rw [Key.same_comm] at hk
    have hkey : e.1 = .text t := Key.eq_text_of_same hk
    refine ⟨(.text t, sub), hmem, ?_, node, (hc.of_governs hs h hgov hi).mpr hnode, ?_⟩
    · rintro rfl
      simp [Value.entries?, Value.shape] at hi
    · obtain ⟨key, value⟩ := e
      obtain rfl : key = .text t := hkey
      exact Prod.ext rfl hval
  · rintro ⟨p, hmem, hne, node, hnode, rfl⟩
    obtain ⟨-, hsub, -⟩ := (hg p hmem).spec hm
    obtain ⟨inner, hi⟩ := hsub.resolve_left hne
    exact ⟨p.2, inner, node, hg p hmem, hi, (hc.of_governs hs h (hg p hmem) hi).mp hnode, rfl⟩

/-- An object with the properties and required names of well-formed members is converted. -/
theorem ConvertsInside.exists_object (hc : source.ConvertsInside schema) (hs : IsSchema schema)
    (h : HasMembers schema members) {schemas : Option Value} {names : List Text}
    (he : (Value.orEmpty schemas).entries? = some (Merged.propertiesOfAll members))
    (hn : ∀ key : Key, key ∈ names.map .text ↔ Requires members key) :
    ∃ node, (object source.convert schemas (.ok (names.map .text))).outcome = .ok node ∧
      source.HasForm schema node := by
  have hm : ∀ m ∈ members, IsShaped m := fun m hmem => (members_spec hs h m hmem).1
  have hentries : (Value.orEmpty schemas).entriesOf = .ok (Merged.propertiesOfAll members) := by
    simp [Value.entriesOf, he]
  obtain ⟨-, hg⟩ := Merged.propertiesOfAll_spec hm
  have hconv : ∀ e ∈ Merged.propertiesOfAll members, e.2 ≠ .null →
      ∃ node, (source.convert e.2).outcome = .ok node := by
    intro e hmem hne
    obtain ⟨-, hsub, -⟩ := (hg e hmem).spec hm
    obtain ⟨inner, hi⟩ := hsub.resolve_left hne
    obtain ⟨node, -, hnode⟩ := hc e.2 inner hi (inside_of_governs hs h (hg e hmem) hi)
    exact ⟨node, hnode⟩
  obtain ⟨nodes, hnodes, hx⟩ := exists_properties (distinctKeys (names.map .text)) hconv
  refine ⟨.object nodes (distinctKeys (names.map .text)), ?_, .object h (fun key => ?_) fun e => ?_⟩
  · refine Traced.bind_eq_ok.mpr ⟨names.map .text, keysOf_texts names, ?_⟩
    refine Traced.bind_eq_ok.mpr ⟨_, hentries, ?_⟩
    exact Traced.bind_eq_ok.mpr ⟨nodes, hnodes, rfl⟩
  · rw [isAmong_distinctKeys, ← hn]
    exact ⟨Key.mem_texts_of_isAmong names, Key.isAmong_of_mem⟩
  · rw [hx, hc.isProperty_iff hs h]

end Objects

/-- Where definitions are a mapping, a name has a definition or none. -/
theorem exists_definition? {definitions : Value} {entries : Entries Value}
    (h : definitions.entries? = some entries) (name : Key) :
    ∃ found, Reference.definition? definitions name = .ok found := by
  simp [Reference.definition?, Value.field?, Value.entriesOf, h, bind, Except.bind]

/-- Members of a list are converted one by one. -/
theorem exists_mapM {convert : Value → Conversion Node} {items : List Value}
    {p : Value → Node → Prop}
    (h : ∀ m ∈ items, ∃ node, (convert m).outcome = .ok node ∧ p m node) :
    ∃ nodes, (items.mapM convert).outcome = .ok nodes ∧ List.Forall₂ p items nodes := by
  induction items with
  | nil => exact ⟨[], by simp, .nil⟩
  | cons m rest ih =>
    obtain ⟨node, hm, hp⟩ := h m (by simp)
    obtain ⟨nodes, hr, hps⟩ := ih fun m' hm' => h m' (List.mem_cons_of_mem _ hm')
    refine ⟨node :: nodes, ?_, .cons hp hps⟩
    rw [List.mapM_cons]
    exact Traced.bind_eq_ok.mpr ⟨node, hm, Traced.bind_eq_ok.mpr ⟨nodes, hr, rfl⟩⟩

section Forms

variable {schema : Entries Value}

/-- Listed options are converted and taken together. -/
theorem ConvertsInside.exists_anyOf (hc : source.ConvertsInside schema) (hs : IsSchema schema)
    {keyword : Text} (hk : keyword ∈ memberKeywords) {v : Value}
    (hv : Entries.find? keyword schema = some v)
    (ho : ∀ options, Lists schema keyword options → HasOptions schema options) :
    ∃ node, (source.ofForm source.convert (.anyOf v)).outcome = .ok node ∧
      source.HasForm schema node := by
  obtain ⟨items, hi, hm⟩ := hs.self.members keyword hk v hv
  have hl : Lists schema keyword items := ⟨v, hv, hi⟩
  have hconv : ∀ m ∈ items, ∃ node, (source.convert m).outcome = .ok node ∧
      ∃ sub, m.entries? = some sub ∧ source.Converts sub node := by
    intro m hmem
    obtain ⟨sub, he⟩ := hm m hmem
    obtain ⟨node, hnode, hconv⟩ := hc m sub he (.single (.member hk hl hmem he))
    exact ⟨node, hconv, sub, he, hnode⟩
  obtain ⟨nodes, hn, hp⟩ := exists_mapM hconv
  refine ⟨anyOf nodes, ?_, .options (ho items hl) hp⟩
  refine Traced.bind_eq_ok.mpr ⟨items, itemsOf_of_shape hi, ?_⟩
  exact Traced.bind_eq_ok.mpr ⟨nodes, hn, rfl⟩

/-- Listed members are taken together to an object. -/
theorem ConvertsInside.exists_allOf (hc : source.ConvertsInside schema) (hs : IsSchema schema)
    {v : Value} (hr : decisive schema = some "allOf") (hv : Entries.find? "allOf" schema = some v) :
    ∃ node, (source.ofForm source.convert (.allOf v)).outcome = .ok node ∧
      source.HasForm schema node := by
  obtain ⟨items, hi, hm⟩ := hs.self.members "allOf" (by simp [memberKeywords]) v hv
  have hl : Lists schema "allOf" items := ⟨v, hv, hi⟩
  have hmembers : HasMembers schema ((items.filterMap Value.entries?).filter isObject) :=
    .allOf hr hl
  have hshaped : ∀ m ∈ items, ∃ sub, m.entries? = some sub ∧ IsShaped sub := by
    intro m hmem
    obtain ⟨sub, he⟩ := hm m hmem
    exact ⟨sub, he, hs sub (.single (.member (by simp [memberKeywords]) hl hmem he))⟩
  obtain ⟨names, hn, hreq⟩ := exists_names_of_members fun m hmem =>
    (members_spec hs hmembers m hmem).1
  have he : (Value.orEmpty (some (.map (Merged.propertiesOfAll
      ((items.filterMap Value.entries?).filter isObject))))).entries? =
      some (Merged.propertiesOfAll ((items.filterMap Value.entries?).filter isObject)) :=
    orEmpty_of_entries? rfl
  obtain ⟨node, hnode, hform⟩ := hc.exists_object hs hmembers he hreq
  refine ⟨node, ?_, hform⟩
  refine Traced.bind_eq_ok.mpr ⟨items, itemsOf_of_shape hi, ?_⟩
  refine Traced.bind_eq_ok.mpr ⟨_, Merged.ofMembers_eq hshaped, ?_⟩
  simp only []
  rw [hn]
  exact hnode

/-- A schema of type object is converted to an object. -/
theorem ConvertsInside.exists_ofObject (hc : source.ConvertsInside schema) (hs : IsSchema schema)
    (ht : HasType schema "object") :
    ∃ node, (source.ofForm source.convert (.object (Entries.find? "properties" schema)
      (Entries.find? "required" schema))).outcome = .ok node ∧ source.HasForm schema node := by
  have hmembers : HasMembers schema [schema] := .own ht
  obtain ⟨names, hn, hi, hreq⟩ := hs.self.required_spec
  have hp : Merged.propertiesOfAll [schema] = propertiesOf schema :=
    Entries.ofPairs_eq_self hs.self.propertiesOf_spec.1
  obtain ⟨node, hnode, hform⟩ :=
    hc.exists_object hs hmembers (hp ▸ hs.self.entries_of_properties) hreq
  refine ⟨node, ?_, hform⟩
  rw [ofForm, hi]
  exact hnode

/-- A schema of type array is converted to a list. -/
theorem ConvertsInside.exists_ofArray (hc : source.ConvertsInside schema) (hs : IsSchema schema)
    (ht : HasType schema "array") :
    ∃ node, (source.ofForm source.convert (.array (Entries.find? "items" schema))).outcome =
      .ok node ∧ source.HasForm schema node := by
  cases hv : Entries.find? "items" schema with
  | none => exact ⟨_, rfl, .list ht hv⟩
  | some v =>
    obtain ⟨sub, he⟩ := hs.self.items v hv
    obtain ⟨element, helement, hconv⟩ := hc v sub he (.single (.items hv he))
    refine ⟨.array element, ?_, .array ht hv he helement⟩
    rw [ofForm]
    split
    · exact Traced.bind_eq_ok.mpr ⟨element, hconv, rfl⟩
    · next hfalse =>
      -- An empty mapping asks for nothing, and is not converted at all.
      have hsub : sub = [] := by
        have hshape := Value.shape_of_entries? he
        simpa [Value.isTruthy, hshape] using hfalse
      subst hsub
      obtain rfl : Node.unknown = element := by
        have hn : (source.convert (.map [])).outcome = .ok .unknown := rfl
        rw [Converts, hn] at helement
        exact Except.ok.inj helement
      rfl

/-- The form that the type of a schema gives it is converted. -/
theorem ConvertsInside.exists_ofType (hc : source.ConvertsInside schema) (hs : IsSchema schema)
    (hfree : decisive schema = none) :
    ∃ node, (source.ofForm source.convert (.ofType schema)).outcome = .ok node ∧
      source.HasForm schema node := by
  unfold Form.ofType
  simp only []
  split
  · next ht => exact hc.exists_ofObject hs ⟨hfree, type_equals.mp ht⟩
  · next hobject =>
    split
    · next ht => exact hc.exists_ofArray hs ⟨hfree, type_equals.mp ht⟩
    · next harray =>
      split
      · next ht =>
        have htype : HasType schema "string" := ⟨hfree, type_equals.mp ht⟩
        cases hv : Entries.find? "enum" schema with
        | none => exact ⟨_, rfl, .text htype hv⟩
        | some v =>
          obtain ⟨texts, ht⟩ := hs.self.choice htype.2 v hv
          refine ⟨.ofValues (texts.map .text), ?_, .choice htype ⟨v, hv, ht⟩⟩
          exact Traced.bind_eq_ok.mpr ⟨_, itemsOf_of_shape ht, rfl⟩
      · next hstring =>
        split
        · next ht =>
          refine ⟨.number, rfl, .number ?_⟩
          rcases Bool.or_eq_true_iff.mp ht with ht | ht
          · exact .inl ⟨hfree, type_equals.mp ht⟩
          · exact .inr ⟨hfree, type_equals.mp ht⟩
        · next hnumber =>
          rw [Bool.or_eq_true_iff, not_or] at hnumber
          split
          · next ht => exact ⟨.boolean, rfl, .boolean ⟨hfree, type_equals.mp ht⟩⟩
          · next hboolean =>
            refine ⟨.unknown, rfl, .nothing ⟨hfree, fun name hname ht => ?_⟩⟩
            have he := type_equals.mpr ht
            simp only [knownTypes, List.mem_cons, List.not_mem_nil, or_false] at hname
            rcases hname with rfl | rfl | rfl | rfl | rfl | rfl
            · exact hobject he
            · exact harray he
            · exact hstring he
            · exact hnumber.1 he
            · exact hnumber.2 he
            · exact hboolean he

/-- What a well-formed schema asks for is converted, when the schemas inside are. -/
theorem ConvertsInside.exists_hasForm (hc : source.ConvertsInside schema) (hs : IsSchema schema)
    {definitions : Entries Value} (hd : source.definitions.entries? = some definitions) :
    ∃ node, (source.ofForm source.convert (.of schema)).outcome = .ok node ∧
      source.HasForm schema node := by
  unfold Form.of
  cases href : Entries.find? "$ref" schema with
  | some v =>
    obtain ⟨t, rfl⟩ := hs.self.reference v href
    obtain ⟨found, hfound⟩ := exists_definition? hd (.text (t.afterLast '/'))
    have hr : Reference.resolve source.definitions (.text t) = .ok (t.afterLast '/', found) := by
      simp [Reference.resolve, Reference.target, hfound, bind, Except.bind]
    cases found with
    | none =>
      refine ⟨.unknown, ?_, .dangling ⟨t, href, hfound⟩⟩
      exact Traced.bind_eq_ok.mpr ⟨_, hr, rfl⟩
    | some target =>
      refine ⟨.lazy ⟨.text (t.afterLast '/'), source.round⟩, ?_, .reference href hfound⟩
      exact Traced.bind_eq_ok.mpr ⟨_, hr, rfl⟩
  | none =>
    cases hall : Entries.find? "allOf" schema with
    | some v =>
      refine hc.exists_allOf hs ?_ hall
      simp [decisive, leadingKeywords, Entries.has, href, hall]
    | none =>
      cases hany : Entries.find? "anyOf" schema with
      | some v =>
        refine hc.exists_anyOf hs (by simp [memberKeywords]) hany fun _ hl =>
          ⟨"anyOf", .inl rfl, ?_, hl⟩
        simp [decisive, leadingKeywords, Entries.has, href, hall, hany]
      | none =>
        cases hone : Entries.find? "oneOf" schema with
        | some v =>
          refine hc.exists_anyOf hs (by simp [memberKeywords]) hone fun _ hl =>
            ⟨"oneOf", .inr rfl, ?_, hl⟩
          simp [decisive, leadingKeywords, Entries.has, href, hall, hany, hone]
        | none =>
          refine hc.exists_ofType hs ?_
          simp [decisive, leadingKeywords, Entries.has, href, hall, hany, hone]

/-- A well-formed schema accepts null when it says so. -/
theorem isNullable_iff (hs : IsShaped schema) : isNullable schema = true ↔ AcceptsNull schema := by
  unfold isNullable AcceptsNull
  cases hv : Entries.find? "nullable" schema with
  | none => simp
  | some v =>
    obtain ⟨b, rfl⟩ := hs.nullable v hv
    simp [Value.isTruthy, Value.shape]

/-- The node of a schema whose form has a node. -/
def wrapped (schema : Entries Value) (node : Node) : Node :=
  if isNullable schema then .nullable node else node

/-- A schema that is not inside itself is converted by its form. -/
theorem converts_iff (hf : (Value.map schema).isFinite = true) {node : Node} :
    source.Converts schema node ↔
      ∃ inner, (source.ofForm source.convert (.of schema)).outcome = .ok inner ∧
        node = wrapped schema inner := by
  have he : (Value.map schema).entries? = some schema := rfl
  rw [Converts, convert_eq source hf, ofSchema, he, Traced.bind_eq_ok]
  simp only [Traced.outcome_pure, Except.ok.injEq, wrapped, eq_comm]

variable {definitions : Entries Value}

/-- A well-formed schema that is not inside itself is converted. -/
theorem exists_converts (hd : source.definitions.entries? = some definitions)
    (hs : IsSchema schema) (hf : (Value.map schema).isFinite = true) :
    ∃ node, source.Converts schema node := by
  revert hs
  refine schema_induction (motive := fun schema => IsSchema schema →
    ∃ node, source.Converts schema node) (fun schema hf ih hs => ?_) hf
  have hc : source.ConvertsInside schema := by
    intro v sub he hi
    obtain ⟨node, hnode⟩ := ih sub hi (hs.inside hi)
    have hv := (Value.isFinite_map_iff he).mp (isFinite_of_inside hf hi)
    exact ⟨node, hnode, (convert_map hv he).symm ▸ hnode⟩
  obtain ⟨inner, hinner, -⟩ := hc.exists_hasForm hs hd
  exact ⟨wrapped schema inner, (converts_iff hf).mpr ⟨inner, hinner, rfl⟩⟩

/-- The node of a well-formed schema has the form that the schema gives it. -/
theorem hasForm_of_converts (hd : source.definitions.entries? = some definitions)
    (hs : IsSchema schema) (hf : (Value.map schema).isFinite = true) {node : Node}
    (h : source.Converts schema node) :
    ∃ inner, source.HasForm schema inner ∧ node = wrapped schema inner := by
  have hc : source.ConvertsInside schema := by
    intro v sub he hi
    have hfi := isFinite_of_inside hf hi
    obtain ⟨node, hnode⟩ := exists_converts hd (hs.inside hi) hfi
    exact ⟨node, hnode, (convert_map ((Value.isFinite_map_iff he).mp hfi) he).symm ▸ hnode⟩
  obtain ⟨inner, hinner, hform⟩ := hc.exists_hasForm hs hd
  obtain ⟨other, hother, rfl⟩ := (converts_iff hf).mp h
  obtain rfl : inner = other := by simpa [hinner] using hother
  exact ⟨inner, hform, rfl⟩

end Forms

end Source

end ZodSchemas
