import ZodSchemas.Proofs.Conversion.Grouping

/-!
# Members that do not meet

Members of type object are taken together to one object. Where no two of them
declare the same property, and none requires what another one declares, they do
not meet in it: a property is required by the object exactly when its own member
requires it. So the object has the properties that the members have by
themselves, one member after another, and there is a node of the object when
there is one of each member.
-/

namespace ZodSchemas

/-- What counts as false lists nothing. -/
theorem Value.items_of_not_isTruthy {v : Value} (h : v.isTruthy = false) :
    v.items?.getD [] = [] := by
  rw [isTruthy] at h
  rw [items?]
  cases hs : v.shape with
  | atom key =>
    rw [hs] at h
    cases key <;> simp_all
  | list items => simp_all
  | pair a b => simp_all
  | map entries => simp_all
  | set items => simp_all

/-- A schema of type object that accepts no null and declares different properties. -/
structure DeclaresObject (schema : Entries Value) : Prop where
  /-- The type decides what it asks for. -/
  typed : HasType schema "object"
  /-- It does not accept null. -/
  present : Source.isNullable schema = false
  /-- Its properties have different keys. -/
  differ : KeysDiffer (Entries.keys (propertiesOf schema))

/-- A value is such a schema. -/
def IsObjectMember (m : Value) : Prop :=
  ∃ schema, m.entries? = some schema ∧ DeclaresObject schema

/-- A schema that takes some members together and accepts no null. -/
structure Joins (schema : Entries Value) (members : List Value) : Prop where
  /-- The list of members decides what it asks for. -/
  first : decisive schema = some "allOf"
  /-- These are the members. -/
  listed : Lists schema "allOf" members
  /-- It does not accept null. -/
  present : Source.isNullable schema = false

/-- Two schemas declare different properties, and neither requires one that the other declares. -/
structure AreDisjoint (schema other : Entries Value) : Prop where
  /-- No property of the one is a property of the other. -/
  declared : ∀ e ∈ propertiesOf schema, Entries.has e.1 (propertiesOf other) = false
  /-- The one requires nothing that the other declares. -/
  first : ∀ v ∈ requiredOf schema, ∀ key, v.toKey? = some key →
    Entries.has key (propertiesOf other) = false
  /-- The other requires nothing that the one declares. -/
  second : ∀ v ∈ requiredOf other, ∀ key, v.toKey? = some key →
    Entries.has key (propertiesOf schema) = false

/-- What a schema of type object declares and requires can be read. -/
structure Reads (schema : Entries Value) : Prop where
  /-- The properties are a mapping, or count as false. -/
  properties : (Value.orEmpty (Entries.find? "properties" schema)).entries? =
    some (propertiesOf schema)
  /-- The required names are listed, or count as false. -/
  required : Value.itemsIfAny (Entries.find? "required" schema) = .ok (requiredOf schema)

section Reading

variable {schema : Entries Value}

/-- The properties that can be read are those that the schema declares. -/
theorem eq_propertiesOf {entries : Entries Value}
    (h : (Value.orEmpty (Entries.find? "properties" schema)).entries? = some entries) :
    entries = propertiesOf schema := by
  rw [propertiesOf_eq]
  exact eq_of_entries?_orEmpty h

/-- The required names that can be read are those that the schema lists. -/
theorem eq_requiredOf {values : List Value}
    (h : Value.itemsIfAny (Entries.find? "required" schema) = .ok values) :
    values = requiredOf schema := by
  unfold requiredOf
  cases hv : Entries.find? "required" schema with
  | none =>
    rw [hv] at h
    exact (Except.ok.inj h).symm
  | some v =>
    rw [hv, Value.itemsIfAny] at h
    split at h
    · unfold Value.itemsOf at h
      split at h
      · next items hi =>
        obtain rfl := Except.ok.inj h
        simp [hi]
      · simp at h
    · next ht =>
      obtain rfl := Except.ok.inj h
      exact (Value.items_of_not_isTruthy (by simpa using ht)).symm

/-- A member of type object is taken along when it can be read. -/
theorem Merged.add_eq_ok {m : Value} (hm : m.entries? = some schema) (ho : isObject schema = true)
    {merged next : Merged} : merged.add m = .ok next ↔ Reads schema ∧
      next = ⟨Entries.merge merged.properties (propertiesOf schema),
        merged.required ++ requiredOf schema⟩ := by
  have hentries : m.entriesOf = .ok schema := by rw [Value.entriesOf, hm]
  have hdeclared : ∀ properties, declaredProperties schema = .ok properties ↔
      (Value.orEmpty (Entries.find? "properties" schema)).entries? = some properties := by
    intro properties
    unfold declaredProperties
    dsimp only
    split <;> simp_all
  rw [add, exceptBind_eq_ok]
  simp only [hentries, Except.ok.injEq, exists_eq_left', ho, if_true, exceptBind_eq_ok, hdeclared]
  constructor
  · rintro ⟨properties, hp, required, hr, rfl⟩
    obtain rfl := eq_propertiesOf hp
    obtain rfl := eq_requiredOf hr
    exact ⟨⟨hp, hr⟩, rfl⟩
  · rintro ⟨⟨hp, hr⟩, rfl⟩
    exact ⟨_, hp, _, hr, rfl⟩

end Reading

/-- A schema that declares an object is of type object. -/
theorem DeclaresObject.isObject {schema : Entries Value} (h : DeclaresObject schema) :
    isObject schema = true := by
  rw [ZodSchemas.isObject, type_equals]
  exact h.typed.2

/-- The first member of type object stands in front of the others. -/
theorem objectMembers_cons {m : Value} {schema : Entries Value} (hm : m.entries? = some schema)
    (ho : isObject schema = true) (rest : List Value) :
    objectMembers (m :: rest) = schema :: objectMembers rest := by
  simp [objectMembers, hm, ho]

/-- Members of type object are related to something one by one as their schemas are. -/
theorem forall₂_objectMembers {α : Type} {R : Entries Value → α → Prop} {S : Value → α → Prop}
    {members : List Value} (hm : ∀ m ∈ members, IsObjectMember m)
    (h : ∀ m schema, m.entries? = some schema → DeclaresObject schema → ∀ a, R schema a ↔ S m a)
    {parts : List α} :
    List.Forall₂ R (objectMembers members) parts ↔ List.Forall₂ S members parts := by
  induction members generalizing parts with
  | nil => simp [objectMembers]
  | cons m rest ih =>
    obtain ⟨⟨schema, he, hd⟩, hrest⟩ := List.forall_mem_cons.mp hm
    rw [objectMembers_cons he hd.isObject, List.forall₂_cons_left_iff, List.forall₂_cons_left_iff]
    simp only [h m schema he hd, ih hrest]

/-- Members of type object are taken together when each of them can be read. -/
theorem Merged.ofMembers_eq_ok {members : List Value} (hm : ∀ m ∈ members, IsObjectMember m)
    {merged : Merged} : ofMembers members = .ok merged ↔
      (∀ schema ∈ objectMembers members, Reads schema) ∧
        merged = ⟨Entries.ofPairs ((objectMembers members).flatMap propertiesOf),
          (objectMembers members).flatMap requiredOf⟩ := by
  rw [← propertiesOfAll_eq_ofPairs, propertiesOfAll]
  have from_any : ∀ start : Merged, members.foldlM add start = .ok merged ↔
      (∀ schema ∈ objectMembers members, Reads schema) ∧
        merged = ⟨(objectMembers members).foldl
          (fun entries m => Entries.merge entries (propertiesOf m)) start.properties,
          start.required ++ (objectMembers members).flatMap requiredOf⟩ := by
    induction members with
    | nil =>
      intro start
      simp [objectMembers, pure, Except.pure, eq_comm]
    | cons m rest ih =>
      intro start
      obtain ⟨⟨schema, he, hd⟩, hrest⟩ := List.forall_mem_cons.mp hm
      rw [List.foldlM_cons, exceptBind_eq_ok]
      simp only [add_eq_ok he hd.isObject, ih hrest, objectMembers_cons he hd.isObject,
        List.forall_mem_cons, List.foldl_cons, List.flatMap_cons]
      constructor
      · rintro ⟨_, ⟨hs, rfl⟩, hr, rfl⟩
        exact ⟨⟨hs, hr⟩, by simp⟩
      · rintro ⟨⟨hs, hr⟩, rfl⟩
        exact ⟨_, ⟨hs, rfl⟩, hr, by simp⟩
  simpa only [ofMembers, List.nil_append] using from_any ⟨[], []⟩

/-- Values are keys when each of them is one. -/
theorem keysOf_cons_eq_ok {v : Value} {rest : List Value} {keys : List Key} :
    keysOf (v :: rest) = .ok keys ↔
      ∃ key others, v.toKey? = some key ∧ keysOf rest = .ok others ∧ keys = key :: others := by
  rw [keysOf]
  cases hv : v.toKey? with
  | none =>
    change Except.error (Fault.noKey v.kind) = .ok keys ↔ _
    simp
  | some key =>
    change (keysOf rest >>= fun others => .ok (key :: others)) = .ok keys ↔ _
    rw [exceptBind_eq_ok]
    constructor
    · rintro ⟨others, ho, h⟩
      exact ⟨key, others, rfl, ho, (Except.ok.inj h).symm⟩
    · rintro ⟨_, others, ⟨⟩, ho, rfl⟩
      exact ⟨others, ho, rfl⟩

/-- The keys of values that come one after another come one after another. -/
theorem keysOf_append_eq_ok {values others : List Value} {keys : List Key} :
    keysOf (values ++ others) = .ok keys ↔ ∃ front back, keysOf values = .ok front ∧
      keysOf others = .ok back ∧ keys = front ++ back := by
  induction values generalizing keys with
  | nil => simp [keysOf]
  | cons v rest ih =>
    simp only [List.cons_append, keysOf_cons_eq_ok, ih]
    constructor
    · rintro ⟨key, _, hk, ⟨front, back, hf, hb, rfl⟩, rfl⟩
      exact ⟨key :: front, back, ⟨key, front, hk, hf, rfl⟩, hb, rfl⟩
    · rintro ⟨_, back, ⟨key, front, hk, hf, rfl⟩, hb, rfl⟩
      exact ⟨key, front ++ back, hk, ⟨front, back, hf, hb, rfl⟩, rfl⟩

/-- Each key is that of a value. -/
theorem exists_of_mem_keysOf {values : List Value} {keys : List Key} (h : keysOf values = .ok keys)
    {key : Key} (hk : key ∈ keys) : ∃ v ∈ values, v.toKey? = some key := by
  induction values generalizing keys with
  | nil =>
    obtain rfl := Except.ok.inj h
    simp at hk
  | cons v rest ih =>
    obtain ⟨first, others, hf, hr, rfl⟩ := keysOf_cons_eq_ok.mp h
    rcases List.mem_cons.mp hk with rfl | hk
    · exact ⟨v, List.mem_cons_self, hf⟩
    · obtain ⟨w, hw, he⟩ := ih hr hk
      exact ⟨w, List.mem_cons_of_mem _ hw, he⟩

/-- Keys are not declared when the values that they are the keys of are not. -/
theorem not_has_of_keysOf {values : List Value} {keys : List Key} {entries : Entries Value}
    (h : keysOf values = .ok keys)
    (hn : ∀ v ∈ values, ∀ key, v.toKey? = some key → Entries.has key entries = false) :
    ∀ k ∈ keys, Entries.has k entries = false := by
  intro k hk
  obtain ⟨v, hv, hkey⟩ := exists_of_mem_keysOf h hk
  exact hn v hv k hkey

/-- A key that is not declared is not among the keys of properties. -/
theorem not_isAmong_of_not_has {schema : Entries Value} {keys : List Key}
    (h : ∀ k ∈ keys, Entries.has k (propertiesOf schema) = false) :
    ∀ e ∈ propertiesOf schema, e.1.isAmong keys = false := by
  intro e he
  rw [← Bool.not_eq_true, Key.isAmong_iff]
  rintro ⟨k, hk, hs⟩
  have hn := h k hk
  have hin : e.1 ∈ Entries.keys (propertiesOf schema) := List.mem_map_of_mem he
  rw [Entries.has_congr hs, Entries.has_eq_isAmong, Key.isAmong_of_mem hin] at hn
  simp at hn

namespace Source

variable {source : Source} {f : Value → Conversion Node}

/-- The nodes of properties that come one after another come one after another. -/
theorem properties_append_eq_ok {required : List Key} {entries others : Entries Value}
    {nodes : Entries Node} :
    (properties f required (entries ++ others)).outcome = .ok nodes ↔ ∃ front back,
      (properties f required entries).outcome = .ok front ∧
        (properties f required others).outcome = .ok back ∧ nodes = front ++ back := by
  induction entries generalizing nodes with
  | nil => simp [properties]
  | cons e rest ih =>
    obtain ⟨key, schema⟩ := e
    by_cases hs : schema = .null
    · subst hs
      exact ih
    · rw [List.cons_append, properties_cons hs, properties_cons hs]
      simp only [Traced.bind_eq_ok, ih, Traced.pure_eq_ok]
      constructor
      · rintro ⟨node, hn, _, ⟨front, back, hf, hb, rfl⟩, rfl⟩
        exact ⟨_, back, ⟨node, hn, front, hf, rfl⟩, hb, rfl⟩
      · rintro ⟨_, back, ⟨node, hn, front, hf, rfl⟩, hb, rfl⟩
        exact ⟨node, hn, front ++ back, ⟨front, back, hf, hb, rfl⟩, rfl⟩

/-- Only the required names among the keys of properties matter. -/
theorem properties_eq_of_isAmong {required names : List Key} {entries : Entries Value}
    (h : ∀ e ∈ entries, e.1.isAmong required = e.1.isAmong names) :
    properties f required entries = properties f names entries := by
  induction entries with
  | nil => rfl
  | cons e rest ih =>
    obtain ⟨key, schema⟩ := e
    obtain ⟨hkey, hrest⟩ := List.forall_mem_cons.mp h
    by_cases hs : schema = .null
    · subst hs
      exact ih hrest
    · rw [properties_cons hs, properties_cons hs, ih hrest]
      simp only [hkey]

/-- Required names that a schema does not declare make no difference to its properties. -/
theorem properties_eq_of_not_has {schema : Entries Value} {outer front back : List Key}
    (ho : ∀ k ∈ outer, Entries.has k (propertiesOf schema) = false)
    (hb : ∀ k ∈ back, Entries.has k (propertiesOf schema) = false) :
    properties f (distinctKeys (outer ++ (front ++ back))) (propertiesOf schema) =
      properties f (distinctKeys front) (propertiesOf schema) := by
  refine properties_eq_of_isAmong fun e he => ?_
  rw [isAmong_distinctKeys, isAmong_distinctKeys, Key.isAmong_append, Key.isAmong_append,
    not_isAmong_of_not_has ho e he, not_isAmong_of_not_has hb e he, Bool.false_or, Bool.or_false]

/-- The nodes of properties have keys of the properties, in their order. -/
theorem keys_properties_sublist {required : List Key} {entries : Entries Value}
    {nodes : Entries Node} (h : (properties f required entries).outcome = .ok nodes) :
    (Entries.keys nodes).Sublist (Entries.keys entries) := by
  induction entries generalizing nodes with
  | nil =>
    obtain rfl : [] = nodes := by simpa [properties] using h
    exact .slnil
  | cons e rest ih =>
    obtain ⟨key, schema⟩ := e
    by_cases hs : schema = .null
    · subst hs
      exact (ih h).cons _
    · rw [properties_cons hs] at h
      obtain ⟨node, -, h⟩ := Traced.bind_eq_ok.mp h
      obtain ⟨others, hr, h⟩ := Traced.bind_eq_ok.mp h
      obtain rfl := Traced.pure_eq_ok.mp h
      exact (ih hr).cons_cons _

/-- An object has a node when its required names are keys and its properties have nodes. -/
theorem object_eq_ok {schemas : Option Value} {names : Except Fault (List Value)} {node : Node} :
    (object f schemas names).outcome = .ok node ↔ ∃ values keys entries nodes,
      names = .ok values ∧ keysOf values = .ok keys ∧
      (Value.orEmpty schemas).entries? = some entries ∧
      (properties f (distinctKeys keys) entries).outcome = .ok nodes ∧
      .object nodes (distinctKeys keys) = node := by
  rw [object]
  simp only [Traced.bind_eq_ok, Traced.outcome_liftM, Traced.pure_eq_ok]
  constructor
  · rintro ⟨keys, hk, entries, he, nodes, hn, rfl⟩
    obtain ⟨values, hv, hk⟩ := exceptBind_eq_ok.mp hk
    exact ⟨values, keys, entries, nodes, hv, hk, entries?_of_entriesOf he, hn, rfl⟩
  · rintro ⟨values, keys, entries, nodes, rfl, hk, he, hn, rfl⟩
    exact ⟨keys, hk, entries, by rw [Value.entriesOf, he], nodes, hn, rfl⟩

/-- The properties of a schema have these nodes, where the schema itself requires names. -/
def HasNodes (f : Value → Conversion Node) (schema : Entries Value) (nodes : Entries Node) :
    Prop :=
  ∃ keys, keysOf (requiredOf schema) = .ok keys ∧
    (properties f (distinctKeys keys) (propertiesOf schema)).outcome = .ok nodes

/-- Where schemas are disjoint, the properties of all have the nodes that they have in each, also
when all required names and some others are required that none of them declares. -/
theorem hasNodes_flatMap {schemas : List (Entries Value)} (hd : schemas.Pairwise AreDisjoint)
    {outer : List Key} (ho : ∀ schema ∈ schemas, ∀ k ∈ outer,
      Entries.has k (propertiesOf schema) = false) {nodes : Entries Node} :
    (∃ keys, keysOf (schemas.flatMap requiredOf) = .ok keys ∧
      (properties f (distinctKeys (outer ++ keys)) (schemas.flatMap propertiesOf)).outcome =
        .ok nodes) ↔
      ∃ parts, List.Forall₂ (HasNodes f) schemas parts ∧ nodes = parts.flatten := by
  induction schemas generalizing outer nodes with
  | nil => simp [keysOf, properties, eq_comm]
  | cons schema rest ih =>
    obtain ⟨hfirst, hrest⟩ := List.pairwise_cons.mp hd
    obtain ⟨hschema, houter⟩ := List.forall_mem_cons.mp ho
    -- What the others require is nothing that this schema declares.
    have same : ∀ {front back : List Key}, keysOf (rest.flatMap requiredOf) = .ok back →
        properties f (distinctKeys (outer ++ (front ++ back))) (propertiesOf schema) =
          properties f (distinctKeys front) (propertiesOf schema) := by
      intro front back hb
      refine properties_eq_of_not_has hschema (not_has_of_keysOf hb fun v hv => ?_)
      obtain ⟨other, ho, hv⟩ := List.mem_flatMap.mp hv
      exact (hfirst other ho).second v hv
    -- What this schema requires is nothing that the others declare.
    have next : ∀ {front : List Key}, keysOf (requiredOf schema) = .ok front →
        ∀ other ∈ rest, ∀ k ∈ outer ++ front, Entries.has k (propertiesOf other) = false :=
      fun hf other ho => List.forall_mem_append.mpr
        ⟨houter other ho, not_has_of_keysOf hf (hfirst other ho).first⟩
    rw [List.flatMap_cons, List.flatMap_cons]
    constructor
    · rintro ⟨keys, hk, hn⟩
      obtain ⟨front, back, hf, hb, rfl⟩ := keysOf_append_eq_ok.mp hk
      obtain ⟨own, others, hown, hothers, rfl⟩ := properties_append_eq_ok.mp hn
      rw [same hb] at hown
      rw [← List.append_assoc] at hothers
      obtain ⟨parts, hparts, rfl⟩ := (ih hrest (next hf)).mp ⟨back, hb, hothers⟩
      exact ⟨own :: parts, .cons ⟨front, hf, hown⟩ hparts, rfl⟩
    · rintro ⟨_, hparts, rfl⟩
      cases hparts with
      | @cons _ own _ parts hown hparts =>
        obtain ⟨front, hf, hown⟩ := hown
        obtain ⟨back, hb, hothers⟩ := (ih hrest (next hf)).mpr ⟨parts, hparts, rfl⟩
        refine ⟨front ++ back, keysOf_append_eq_ok.mpr ⟨front, back, hf, hb, rfl⟩, ?_⟩
        refine properties_append_eq_ok.mpr ⟨own, parts.flatten, ?_, ?_, rfl⟩
        · rw [same hb]
          exact hown
        · rw [← List.append_assoc]
          exact hothers

/-- The conversion of a schema is by its form and the conversions of the schemas inside, when
either succeeds. -/
theorem convert_eq_ok {v : Value} {node : Node} : (source.convert v).outcome = .ok node ↔
    (source.ofSchema source.convert v).outcome = .ok node := by
  constructor
  · intro h
    have hreaches : (source.convert v).Reaches (source.ofSchema source.convert v) := by
      rw [convert, convertWithin]
      exact ofSchema_reaches (P := fun _ => True) ⟨fun _ _ => trivial, fun _ => trivial⟩
        (fun _ _ => trivial) fun w _ => convertWithin_reaches _ w
    rw [hreaches (by simp [h]), h]
  · intro h
    rw [ofSchema_convert_reaches v (by simp [h]), h]

/-- A schema that accepts no null is converted by its form. -/
theorem convert_eq_ok_iff_form {v : Value} {schema : Entries Value} (hv : v.entries? = some schema)
    (hn : isNullable schema = false) {node : Node} : (source.convert v).outcome = .ok node ↔
      (source.ofForm source.convert (.of schema)).outcome = .ok node := by
  rw [convert_eq_ok, ofSchema]
  simp only [hv, hn, Bool.false_eq_true, if_false, bind_pure]

/-- The conversion of a value ends with an object that has these properties. -/
def HasObject (source : Source) (v : Value) (nodes : Entries Node) : Prop :=
  ∃ required, (source.convert v).outcome = .ok (.object nodes required)

/-- The form of a schema that no leading keyword is in is that of its type. -/
theorem form_of_decisive_none {schema : Entries Value} (h : decisive schema = none) :
    Form.of schema = .ofType schema := by
  have hnone : ∀ keyword ∈ leadingKeywords, Entries.find? (.text keyword) schema = none := by
    intro keyword hk
    simpa [Entries.has] using List.find?_eq_none.mp h keyword hk
  simp only [leadingKeywords, List.forall_mem_cons] at hnone
  obtain ⟨href, hall, hany, hone, -⟩ := hnone
  simp only [Form.of, href, hall, hany, hone]

/-- The form of a schema that lists members first of all. -/
theorem form_of_decisive_allOf {schema : Entries Value} (h : decisive schema = some "allOf")
    {v : Value} (hv : Entries.find? "allOf" schema = some v) : Form.of schema = .allOf v := by
  have href : Entries.find? "$ref" schema = none := by
    cases hr : Entries.find? "$ref" schema with
    | none => rfl
    | some target =>
      simp only [decisive, leadingKeywords, Entries.has, List.find?_cons, hr,
        Option.isSome_some] at h
      exact absurd h (by decide)
  simp only [Form.of, href, hv]

section Objects

variable {m whole : Value} {schema : Entries Value} {members : List Value} {node : Node}
  {nodes : Entries Node}

/-- The node of a member is that of an object, with the nodes that its properties have. -/
theorem convert_member (hm : m.entries? = some schema) (hd : DeclaresObject schema) :
    (source.convert m).outcome = .ok node ↔ Reads schema ∧ ∃ keys nodes,
      keysOf (requiredOf schema) = .ok keys ∧
      (properties source.convert (distinctKeys keys) (propertiesOf schema)).outcome = .ok nodes ∧
      .object nodes (distinctKeys keys) = node := by
  have hform : Form.of schema = .object (Entries.find? "properties" schema)
      (Entries.find? "required" schema) := by
    rw [form_of_decisive_none hd.typed.1, Form.ofType]
    simp [hd.typed.2, Value.equals_text]
  rw [convert_eq_ok_iff_form hm hd.present, hform, ofForm, object_eq_ok]
  constructor
  · rintro ⟨values, keys, entries, nodes, hv, hk, he, hn, rfl⟩
    obtain rfl := eq_requiredOf hv
    obtain rfl := eq_propertiesOf he
    exact ⟨⟨he, hv⟩, keys, nodes, hk, hn, rfl⟩
  · rintro ⟨hr, keys, nodes, hk, hn, rfl⟩
    exact ⟨_, keys, _, nodes, hr.required, hk, hr.properties, hn, rfl⟩

/-- The node of members that are taken together is that of an object, with the nodes that the
properties of all have. -/
theorem convert_joined (hw : whole.entries? = some schema) (hj : Joins schema members)
    (hm : ∀ m ∈ members, IsObjectMember m) :
    (source.convert whole).outcome = .ok node ↔
      (∀ schema ∈ objectMembers members, Reads schema) ∧ ∃ keys nodes,
      keysOf ((objectMembers members).flatMap requiredOf) = .ok keys ∧
      (properties source.convert (distinctKeys keys)
        (Entries.ofPairs ((objectMembers members).flatMap propertiesOf))).outcome = .ok nodes ∧
      .object nodes (distinctKeys keys) = node := by
  obtain ⟨v, hv, hshape⟩ := hj.listed
  rw [convert_eq_ok_iff_form hw hj.present, form_of_decisive_allOf hj.first hv, ofForm]
  simp only [Traced.bind_eq_ok, Traced.outcome_liftM, itemsOf_of_shape hshape, Except.ok.injEq,
    exists_eq_left', Merged.ofMembers_eq_ok hm, object_eq_ok]
  constructor
  · rintro ⟨_, ⟨hr, rfl⟩, _, keys, entries, nodes, rfl, hk, he, hn, rfl⟩
    rw [orEmpty_of_entries? rfl, Option.some.injEq] at he
    obtain rfl := he
    exact ⟨hr, keys, nodes, hk, hn, rfl⟩
  · rintro ⟨hr, keys, nodes, hk, hn, rfl⟩
    exact ⟨_, ⟨hr, rfl⟩, _, keys, _, nodes, rfl, hk, orEmpty_of_entries? rfl, hn, rfl⟩

/-- The properties of disjoint members have different keys. -/
theorem keysDiffer_flatMap {schemas : List (Entries Value)} (hd : schemas.Pairwise AreDisjoint)
    (hk : ∀ schema ∈ schemas, KeysDiffer (Entries.keys (propertiesOf schema))) :
    KeysDiffer (Entries.keys (schemas.flatMap propertiesOf)) := by
  induction schemas with
  | nil => exact .nil
  | cons schema rest ih =>
    obtain ⟨hfirst, hrest⟩ := List.pairwise_cons.mp hd
    obtain ⟨hschema, hothers⟩ := List.forall_mem_cons.mp hk
    rw [List.flatMap_cons, Entries.keys_append]
    refine hschema.append (ih hrest hothers) fun k hk => ?_
    rw [← Bool.not_eq_true, Key.isAmong_iff]
    rintro ⟨other, ho, hs⟩
    obtain ⟨e, he, rfl⟩ := List.mem_map.mp hk
    obtain ⟨e', he', rfl⟩ := List.mem_map.mp ho
    obtain ⟨t, ht, hin⟩ := List.mem_flatMap.mp he'
    have hn := (hfirst t ht).declared e he
    rw [Entries.has_eq_isAmong, ← Bool.not_eq_true, Key.isAmong_iff] at hn
    exact hn ⟨e'.1, List.mem_map_of_mem hin, hs⟩

/-- Each of the schemas of members declares an object. -/
theorem declaresObject_of_mem (hm : ∀ m ∈ members, IsObjectMember m) :
    ∀ schema ∈ objectMembers members, DeclaresObject schema := by
  intro schema hs
  obtain ⟨m, hin, he⟩ := List.mem_filterMap.mp (List.mem_filter.mp hs).1
  obtain ⟨found, hf, hd⟩ := hm m hin
  rwa [Option.some.inj (he.symm.trans hf)]

/-- A member has an object for its properties when it can be read and they have these nodes. -/
theorem hasObject_member (hm : m.entries? = some schema) (hd : DeclaresObject schema) :
    source.HasObject m nodes ↔ Reads schema ∧ HasNodes source.convert schema nodes := by
  simp only [HasObject, convert_member hm hd, HasNodes]
  constructor
  · rintro ⟨required, hr, keys, others, hk, hn, h⟩
    obtain ⟨rfl, -⟩ := Node.object.inj h
    exact ⟨hr, keys, hk, hn⟩
  · rintro ⟨hr, keys, hk, hn⟩
    exact ⟨_, hr, keys, nodes, hk, hn, rfl⟩

/-- Disjoint members that are taken together have an object with the properties of all, as each of
them has an object by itself. -/
theorem hasObject_joined (hw : whole.entries? = some schema) (hj : Joins schema members)
    (hm : ∀ m ∈ members, IsObjectMember m) (hd : (objectMembers members).Pairwise AreDisjoint) :
    source.HasObject whole nodes ↔
      ∃ parts, List.Forall₂ source.HasObject members parts ∧ nodes = parts.flatten := by
  have hdeclares := declaresObject_of_mem hm
  have hself := Entries.ofPairs_eq_self (keysDiffer_flatMap hd fun s hs => (hdeclares s hs).differ)
  have hflat : (∃ keys, keysOf ((objectMembers members).flatMap requiredOf) = .ok keys ∧
      (properties source.convert (distinctKeys keys)
        ((objectMembers members).flatMap propertiesOf)).outcome = .ok nodes) ↔
      ∃ parts, List.Forall₂ (HasNodes source.convert) (objectMembers members) parts ∧
        nodes = parts.flatten :=
    hasNodes_flatMap hd (fun _ _ _ h => absurd h List.not_mem_nil)
  have hmembers : ∀ parts, List.Forall₂ source.HasObject members parts ↔
      (∀ schema ∈ objectMembers members, Reads schema) ∧
        List.Forall₂ (HasNodes source.convert) (objectMembers members) parts := by
    intro parts
    have hmember : ∀ m schema, m.entries? = some schema → DeclaresObject schema → ∀ nodes,
        (Reads schema ∧ HasNodes source.convert schema nodes) ↔ source.HasObject m nodes :=
      fun _ _ he hd _ => (hasObject_member he hd).symm
    rw [← forall₂_objectMembers hm hmember, List.forall₂_and_left]
  simp only [HasObject, convert_joined hw hj hm, hself]
  constructor
  · rintro ⟨required, hr, keys, others, hk, hn, h⟩
    obtain ⟨rfl, -⟩ := Node.object.inj h
    obtain ⟨parts, hparts, rfl⟩ := hflat.mp ⟨keys, hk, hn⟩
    exact ⟨parts, (hmembers parts).mpr ⟨hr, hparts⟩, rfl⟩
  · rintro ⟨parts, hparts, rfl⟩
    obtain ⟨hr, hparts⟩ := (hmembers parts).mp hparts
    obtain ⟨keys, hk, hn⟩ := hflat.mpr ⟨parts, hparts, rfl⟩
    exact ⟨_, hr, keys, _, hk, hn, rfl⟩

/-- The properties of an object that members are taken together to have different keys. -/
theorem keysDiffer_of_hasObject (hw : whole.entries? = some schema) (hj : Joins schema members)
    (hm : ∀ m ∈ members, IsObjectMember m) (h : source.HasObject whole nodes) :
    KeysDiffer (Entries.keys nodes) := by
  obtain ⟨required, h⟩ := h
  obtain ⟨-, keys, others, -, hn, h⟩ := (convert_joined hw hj hm).mp h
  obtain ⟨rfl, -⟩ := Node.object.inj h
  exact (Entries.keysDiffer_ofPairs _).sublist (keys_properties_sublist hn)

/-- Members that are taken together have no node but that of an object. -/
theorem exists_hasObject_joined (hw : whole.entries? = some schema) (hj : Joins schema members)
    (hm : ∀ m ∈ members, IsObjectMember m) (h : (source.convert whole).outcome = .ok node) :
    ∃ nodes required, node = .object nodes required := by
  obtain ⟨-, keys, nodes, -, -, rfl⟩ := (convert_joined hw hj hm).mp h
  exact ⟨nodes, _, rfl⟩

/-- A member has no node but that of an object. -/
theorem exists_hasObject_member (hm : IsObjectMember m)
    (h : (source.convert m).outcome = .ok node) :
    ∃ nodes required, node = .object nodes required := by
  obtain ⟨schema, he, hd⟩ := hm
  obtain ⟨-, keys, nodes, -, -, rfl⟩ := (convert_member he hd).mp h
  exact ⟨nodes, _, rfl⟩

end Objects

end Source

end ZodSchemas
