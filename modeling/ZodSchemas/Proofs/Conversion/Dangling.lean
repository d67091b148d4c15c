import ZodSchemas.Proofs.Conversion.Accounting
import ZodSchemas.Proofs.Conversion.Mentions
import ZodSchemas.Proofs.Conversion.Merging

/-!
# References to missing definitions

What a conversion meets is read off the schema alone: a reference, the schemas
of options, of properties and of elements, each in the order in which it stands.
A keyword that does not decide is not looked at, a member of another type than
object is dropped, and a property that comes again takes the later schema. So
the names that a conversion misses are those of the references met on that walk
that have no definition, one for each time that such a reference is met.
-/

namespace ZodSchemas

/-- The items that stand under a keyword of a schema. -/
def itemsUnder (keyword : Text) (schema : Entries Value) : List Value :=
  ((Entries.find? keyword schema).bind Value.items?).getD []

/-- The schemas of some properties in order; where nothing stands there is none. -/
def schemasOf (properties : Entries Value) : List Value :=
  (Entries.values properties).filter fun v => v.kind != .null

/-- The members of type object among some values. -/
def objectMembers (items : List Value) : List (Entries Value) :=
  (items.filterMap Value.entries?).filter isObject

/-- The schemas that are met right inside a schema without leading keywords: those of properties in
an object, and that of elements in a list if it counts as true. -/
def schemasOfType (schema : Entries Value) : List Value :=
  match Entries.find? "type" schema with
  | some (.text name) =>
    if name = "object" then schemasOf (propertiesOf schema)
    else if name = "array" then (Entries.find? "items" schema).toList.filter Value.isTruthy
    else []
  | _ => []

/-- The schemas that are met right inside a schema, in order. -/
def schemasMet (schema : Entries Value) : List Value :=
  match decisive schema with
  | some keyword =>
    if keyword = "$ref" then []
    else if keyword = "allOf" then
      schemasOf (Merged.propertiesOfAll (objectMembers (itemsUnder "allOf" schema)))
    else itemsUnder keyword schema
  | none => schemasOfType schema

/-- The name at the end of the reference of a schema, unless that has a definition. -/
def danglingNames (definitions : Value) (schema : Entries Value) : List Text :=
  match Entries.find? "$ref" schema with
  | some (.text t) =>
    match Reference.definition? definitions (.text (t.afterLast '/')) with
    | .ok none => [t.afterLast '/']
    | _ => []
  | _ => []

/-- The names of the references without a definition that are met in some schemas: of each schema
its own, then those of the schemas inside, then those of the schemas behind. -/
inductive Misses (definitions : Value) : List Value → List Text → Prop where
  /-- Nothing is met. -/
  | nil : Misses definitions [] []
  /-- A schema is met. -/
  | cons {v : Value} {schema : Entries Value} {rest : List Value} {names others : List Text}
      (mapping : v.entries? = some schema) (inside : Misses definitions (schemasMet schema) names)
      (behind : Misses definitions rest others) :
      Misses definitions (v :: rest) (danglingNames definitions schema ++ names ++ others)

namespace Misses

variable {definitions : Value}

/-- What is met in some schemas is settled by the schemas. -/
theorem unique {schemas : List Value} {names others : List Text}
    (h : Misses definitions schemas names) (ho : Misses definitions schemas others) :
    names = others := by
  induction h generalizing others with
  | nil => cases ho with | nil => rfl
  | cons mapping _ _ inside_ih behind_ih =>
    cases ho with
    | cons mapping' inside' behind' =>
      obtain rfl := Option.some.inj (mapping.symm.trans mapping')
      rw [inside_ih inside', behind_ih behind']

/-- Schemas are met one after another. -/
theorem append {front back : List Value} {names others : List Text}
    (hf : Misses definitions front names) (hb : Misses definitions back others) :
    Misses definitions (front ++ back) (names ++ others) := by
  induction hf with
  | nil => exact hb
  | cons mapping inside _ _ ih =>
    rw [List.append_assoc]
    exact .cons mapping inside ih

/-- A schema is met with the schemas inside it. -/
theorem singleton {v : Value} {schema : Entries Value} {names : List Text}
    (hv : v.entries? = some schema) (h : Misses definitions (schemasMet schema) names) :
    Misses definitions [v] (danglingNames definitions schema ++ names) := by
  have hs := cons hv h nil
  rwa [List.append_nil] at hs

/-- Schemas that are met are mappings. -/
theorem exists_entries {v : Value} {schemas : List Value} {names : List Text}
    (h : Misses definitions schemas names) (hv : v ∈ schemas) :
    ∃ schema, v.entries? = some schema := by
  induction h with
  | nil => simp at hv
  | cons mapping _ _ _ ih =>
    rcases List.mem_cons.mp hv with rfl | hv
    · exact ⟨_, mapping⟩
    · exact ih hv

/-- What is met in a schema depends on its entries alone. -/
theorem of_entries? {v w : Value} {names : List Text} (h : Misses definitions [v] names)
    (he : v.entries? = w.entries?) : Misses definitions [w] names := by
  cases h with
  | cons mapping inside behind => exact .cons (he ▸ mapping) inside behind

end Misses

/-- The missing names of two traces come one after another. -/
theorem missingNames_append (mentions others : List Mention) :
    missingNames (mentions ++ others) = missingNames mentions ++ missingNames others :=
  List.filterMap_append

/-- The entries of a value that must be a mapping are those that it has. -/
theorem entries?_of_entriesOf {v : Value} {entries : Entries Value}
    (h : v.entriesOf = .ok entries) : v.entries? = some entries := by
  unfold Value.entriesOf at h
  split at h
  · next found hf => rw [hf, Except.ok.inj h]
  · simp at h

/-- The entries that a value stands for where it may be absent. -/
theorem eq_of_entries?_orEmpty {v : Option Value} {entries : Entries Value}
    (h : (Value.orEmpty v).entries? = some entries) :
    entries = (v.bind Value.entries?).getD [] := by
  cases v with
  | none =>
    rw [Value.orEmpty] at h
    exact (Option.some.inj h).symm
  | some v =>
    cases hv : v.entries? with
    | some found =>
      rw [orEmpty_of_entries? hv] at h
      rw [Option.bind_some, hv, Option.some.inj h, Option.getD_some]
    | none =>
      rw [Option.bind_some, hv, Option.getD_none]
      rw [Value.orEmpty] at h
      split at h
      · simp [hv] at h
      · exact (Option.some.inj h).symm

/-- The properties of a schema are the entries that stand under the keyword. -/
theorem propertiesOf_eq (schema : Entries Value) :
    propertiesOf schema = ((Entries.find? "properties" schema).bind Value.entries?).getD [] := by
  unfold propertiesOf
  cases Entries.find? "properties" schema <;> rfl

/-- The properties that can be read are those of the schema. -/
theorem eq_of_declaredProperties {schema properties : Entries Value}
    (h : declaredProperties schema = .ok properties) : properties = propertiesOf schema := by
  rw [propertiesOf_eq]
  unfold declaredProperties at h
  dsimp only at h
  split at h
  · next entries he =>
    obtain rfl := Except.ok.inj h
    exact eq_of_entries?_orEmpty he
  · simp at h

/-- One more member is taken along if it is of type object. -/
theorem Merged.properties_add {merged next : Merged} {m : Value}
    (h : merged.add m = .ok next) : next.properties =
      (objectMembers [m]).foldl (fun entries m => Entries.merge entries (propertiesOf m))
        merged.properties := by
  obtain ⟨schema, hm, h⟩ := exceptBind_eq_ok.mp h
  have hentries := entries?_of_entriesOf hm
  split at h
  · next ho =>
    obtain ⟨properties, hp, h⟩ := exceptBind_eq_ok.mp h
    obtain ⟨required, -, h⟩ := exceptBind_eq_ok.mp h
    obtain rfl := Except.ok.inj h
    simp [objectMembers, hentries, ho, eq_of_declaredProperties hp]
  · next ho =>
    obtain rfl := Except.ok.inj h
    simp [objectMembers, hentries, ho]

/-- The properties of members taken together are those of the members of type object, the later
ones over the earlier ones. -/
theorem Merged.properties_ofMembers {items : List Value} {merged : Merged}
    (h : ofMembers items = .ok merged) :
    merged.properties = propertiesOfAll (objectMembers items) := by
  have from_any : ∀ (items : List Value) (start merged : Merged),
      items.foldlM add start = .ok merged → merged.properties =
        (objectMembers items).foldl (fun entries m => Entries.merge entries (propertiesOf m))
          start.properties := by
    intro items
    induction items with
    | nil =>
      intro start merged h
      obtain rfl : start = merged := Except.ok.inj h
      rfl
    | cons m rest ih =>
      intro start merged h
      rw [List.foldlM_cons] at h
      obtain ⟨next, hn, hr⟩ := exceptBind_eq_ok.mp h
      have hsplit : objectMembers (m :: rest) = objectMembers [m] ++ objectMembers rest := by
        rw [objectMembers, objectMembers, objectMembers, ← List.filter_append,
          ← List.filterMap_append, List.singleton_append]
      rw [ih next merged hr, hsplit, List.foldl_append, properties_add hn]
  exact from_any items ⟨[], []⟩ merged h

namespace Source

open Traced

variable {source : Source} {convert : Value → Conversion Node}

/-- A conversion mentions the missing names that are met in a schema. -/
def MentionsMissing (definitions : Value) (convert : Value → Conversion Node) : Prop :=
  ∀ v node, (convert v).outcome = .ok node →
    Misses definitions [v] (missingNames (convert v).events)

section Parts

variable {definitions : Value}

/-- Several conversions mention what is met in their schemas. -/
theorem MentionsMissing.mapM (h : MentionsMissing definitions convert) {members : List Value}
    {nodes : List Node} (hm : (members.mapM convert).outcome = .ok nodes) :
    Misses definitions members (missingNames (members.mapM convert).events) := by
  induction members generalizing nodes with
  | nil => exact .nil
  | cons m rest ih =>
    rw [List.mapM_cons] at hm ⊢
    obtain ⟨node, hn, hm⟩ := bind_eq_ok.mp hm
    obtain ⟨others, ho, -⟩ := bind_eq_ok.mp hm
    rw [events_bind hn, events_bind ho, pure_eq, List.append_nil, missingNames_append]
    exact (h m node hn).append (ih ho)

/-- Properties mention what is met in their schemas. -/
theorem MentionsMissing.properties (h : MentionsMissing definitions convert) {required : List Key}
    {entries : Entries Value} {nodes : Entries Node}
    (hp : (Source.properties convert required entries).outcome = .ok nodes) :
    Misses definitions (schemasOf entries)
      (missingNames (Source.properties convert required entries).events) := by
  induction entries generalizing nodes with
  | nil => exact .nil
  | cons e rest ih =>
    obtain ⟨key, schema⟩ := e
    by_cases hs : schema = .null
    · subst hs
      exact ih hp
    · rw [properties_cons hs] at hp ⊢
      obtain ⟨node, hn, hp⟩ := bind_eq_ok.mp hp
      obtain ⟨others, ho, -⟩ := bind_eq_ok.mp hp
      have hfirst := h schema node hn
      -- What was converted is a mapping, and so it is kept among the schemas.
      have hkind : schema.kind ≠ .null := by
        obtain ⟨entries, he⟩ := hfirst.exists_entries (List.mem_singleton_self schema)
        simp [Value.kind, Value.shape_of_entries? he]
      have hsplit : schemasOf ((key, schema) :: rest) = [schema] ++ schemasOf rest := by
        simp [schemasOf, Entries.values, hkind]
      rw [events_bind hn, events_bind ho, pure_eq, List.append_nil, missingNames_append, hsplit]
      exact hfirst.append (ih ho)

/-- An object mentions what is met in the schemas of its properties. -/
theorem MentionsMissing.object (h : MentionsMissing definitions convert) {schemas : Option Value}
    {names : Except Fault (List Value)} {node : Node}
    (ho : (Source.object convert schemas names).outcome = .ok node) :
    Misses definitions (schemasOf ((schemas.bind Value.entries?).getD []))
      (missingNames (Source.object convert schemas names).events) := by
  obtain ⟨keys, hk, hrest⟩ := bind_eq_ok.mp ho
  obtain ⟨entries, he, hrest⟩ := bind_eq_ok.mp hrest
  obtain ⟨nodes, hn, -⟩ := bind_eq_ok.mp hrest
  have hentries : entries = (schemas.bind Value.entries?).getD [] :=
    eq_of_entries?_orEmpty (entries?_of_entriesOf he)
  have hevents : (Source.object convert schemas names).events =
      (Source.properties convert (distinctKeys keys) entries).events := by
    unfold Source.object
    rw [events_bind hk, events_bind he, events_bind hn, pure_eq, List.append_nil]
    rfl
  rw [hevents, ← hentries]
  exact h.properties hn

end Parts

/-- A reference mentions its name if that has no definition. -/
theorem missingNames_reference {target : Value} {node : Node} {schema : Entries Value}
    (hf : Entries.find? "$ref" schema = some target)
    (h : (source.reference target).outcome = .ok node) :
    missingNames (source.reference target).events = danglingNames source.definitions schema := by
  obtain ⟨⟨name, found⟩, hr, -⟩ := bind_eq_ok.mp h
  obtain ⟨ht, hd⟩ := definition?_of_resolve hr
  obtain ⟨t, rfl, rfl⟩ : ∃ t, target = .text t ∧ t.afterLast '/' = name := by
    unfold Reference.target at ht
    split at ht
    · next t => exact ⟨t, rfl, Except.ok.inj ht⟩
    · simp at ht
  rw [danglingNames, hf]
  dsimp only
  rw [hd]
  refine (congrArg missingNames (events_bind hr)).trans ?_
  cases found <;> rfl

/-- A schema without a reference has no dangling name of its own. -/
theorem danglingNames_of_find? {definitions : Value} {schema : Entries Value}
    (h : Entries.find? "$ref" schema = none) : danglingNames definitions schema = [] := by
  rw [danglingNames, h]

/-- The schemas that are met right inside a form, in order. -/
def schemasInForm : Form → List Value
  | .allOf members => schemasOf (Merged.propertiesOfAll (objectMembers (members.items?.getD [])))
  | .anyOf members => members.items?.getD []
  | .object schemas _ => schemasOf ((schemas.bind Value.entries?).getD [])
  | .array items => items.toList.filter Value.isTruthy
  | _ => []

/-- The schemas in the form that its type gives a schema are those of properties or of elements. -/
theorem schemasInForm_ofType (schema : Entries Value) :
    schemasInForm (.ofType schema) = schemasOfType schema := by
  unfold Form.ofType schemasOfType
  simp only []
  split
  · next hobject =>
    rw [type_equals.mp hobject, propertiesOf_eq]
    rfl
  · next hobject =>
    split
    · next harray =>
      rw [type_equals.mp harray]
      rfl
    · next harray =>
      -- No other type has schemas inside.
      trans []
      · split
        · split <;> rfl
        · split
          · rfl
          · split <;> rfl
      · split
        · next name ht =>
          rw [if_neg, if_neg]
          · rintro rfl
            exact harray (type_equals.mpr ht)
          · rintro rfl
            exact hobject (type_equals.mpr ht)
        · rfl

/-- The schemas that are met right inside a schema are those in its form. -/
theorem schemasMet_eq (schema : Entries Value) :
    schemasMet schema = schemasInForm (.of schema) := by
  unfold Form.of
  cases href : Entries.find? "$ref" schema with
  | some v =>
    have hd : decisive schema = some ("$ref" : Text) := by
      simp [decisive, leadingKeywords, Entries.has, href]
    rw [schemasMet, hd]
    rfl
  | none =>
    cases hall : Entries.find? "allOf" schema with
    | some v =>
      have hd : decisive schema = some ("allOf" : Text) := by
        simp [decisive, leadingKeywords, Entries.has, href, hall]
      have hitems : itemsUnder "allOf" schema = v.items?.getD [] := by
        rw [itemsUnder, hall, Option.bind_some]
      rw [schemasMet, hd, hitems]
      rfl
    | none =>
      cases hany : Entries.find? "anyOf" schema with
      | some v =>
        have hd : decisive schema = some ("anyOf" : Text) := by
          simp [decisive, leadingKeywords, Entries.has, href, hall, hany]
        rw [schemasMet, hd]
        change itemsUnder "anyOf" schema = v.items?.getD []
        rw [itemsUnder, hany, Option.bind_some]
      | none =>
        cases hone : Entries.find? "oneOf" schema with
        | some v =>
          have hd : decisive schema = some ("oneOf" : Text) := by
            simp [decisive, leadingKeywords, Entries.has, href, hall, hany, hone]
          rw [schemasMet, hd]
          change itemsUnder "oneOf" schema = v.items?.getD []
          rw [itemsUnder, hone, Option.bind_some]
        | none =>
          have hd : decisive schema = none := by
            simp [decisive, leadingKeywords, Entries.has, href, hall, hany, hone]
          rw [schemasMet, hd]
          exact (schemasInForm_ofType schema).symm

/-- Past a value that is read without looking at schemas the mentions are those that follow. -/
theorem events_read {α β : Type} {x : Except Fault α} {f : α → Conversion β} {a : α}
    (h : (liftM x : Conversion α).outcome = .ok a) :
    ((liftM x : Conversion α) >>= f).events = (f a).events :=
  events_bind h

/-- The items that can be read are those of the value. -/
theorem eq_of_itemsOf {v : Value} {items : List Value} (h : v.itemsOf = .ok items) :
    v.items?.getD [] = items := by
  unfold Value.itemsOf at h
  split at h
  · next found hf => rw [hf, Option.getD_some, Except.ok.inj h]
  · simp at h

/-- Every form other than a reference mentions what is met in the schemas inside. -/
theorem MentionsMissing.ofForm (h : MentionsMissing source.definitions convert) {form : Form}
    {node : Node} (hr : ∀ target, form ≠ .reference target)
    (hf : (source.ofForm convert form).outcome = .ok node) :
    Misses source.definitions (schemasInForm form)
      (missingNames (source.ofForm convert form).events) := by
  cases form with
  | reference target => exact absurd rfl (hr target)
  | allOf members =>
    obtain ⟨items, hi, hrest⟩ := bind_eq_ok.mp hf
    obtain ⟨merged, hm, hrest⟩ := bind_eq_ok.mp hrest
    have hevents : (source.ofForm convert (.allOf members)).events =
        (Source.object convert (some (.map merged.properties)) (.ok merged.required)).events := by
      rw [Source.ofForm, events_read hi, events_read hm]
    rw [hevents, schemasInForm, eq_of_itemsOf hi, ← Merged.properties_ofMembers hm]
    exact h.object hrest
  | anyOf members =>
    obtain ⟨items, hi, hrest⟩ := bind_eq_ok.mp hf
    obtain ⟨nodes, hn, -⟩ := bind_eq_ok.mp hrest
    have hevents : (source.ofForm convert (.anyOf members)).events =
        (items.mapM convert).events := by
      rw [Source.ofForm, events_read hi, events_bind hn, pure_eq, List.append_nil]
    rw [hevents, schemasInForm, eq_of_itemsOf hi]
    exact h.mapM hn
  | object schemas required => exact h.object hf
  | array items =>
    cases items with
    | none => exact .nil
    | some items =>
      rw [Source.ofForm] at hf ⊢
      split at hf
      · next ht =>
        obtain ⟨element, he, -⟩ := bind_eq_ok.mp hf
        rw [if_pos ht, events_bind he, pure_eq, List.append_nil, schemasInForm, Option.toList_some,
          List.filter_cons_of_pos ht, List.filter_nil]
        exact h items element he
      · next ht =>
        rw [if_neg ht, schemasInForm, Option.toList_some, List.filter_cons_of_neg ht]
        exact .nil
  | choice values =>
    obtain ⟨items, hi, -⟩ := bind_eq_ok.mp hf
    rw [Source.ofForm, events_read hi]
    exact .nil
  | string checks => exact .nil
  | number => exact .nil
  | boolean => exact .nil
  | anything => exact .nil

/-- A schema mentions its own missing name and those that are met in the schemas inside. -/
theorem MentionsMissing.of_schema (h : MentionsMissing source.definitions convert)
    {schema : Entries Value} {node : Node}
    (hf : (source.ofForm convert (.of schema)).outcome = .ok node) :
    ∃ names, Misses source.definitions (schemasMet schema) names ∧
      missingNames (source.ofForm convert (.of schema)).events =
        danglingNames source.definitions schema ++ names := by
  cases href : Entries.find? "$ref" schema with
  | some target =>
    have hform : Form.of schema = .reference target := by rw [Form.of, href]
    rw [hform] at hf
    refine ⟨[], ?_, ?_⟩
    · rw [schemasMet_eq, hform]
      exact .nil
    · rw [hform, List.append_nil]
      exact missingNames_reference href hf
  | none =>
    have hform : ∀ target, Form.of schema ≠ .reference target := by
      intro target
      unfold Form.of Form.ofType
      rw [href]
      simp only []
      repeat' split
      all_goals exact Form.noConfusion
    refine ⟨_, schemasMet_eq schema ▸ h.ofForm hform hf, ?_⟩
    rw [danglingNames_of_find? href, List.nil_append]

/-- A conversion mentions the missing names that are met in the schema, if the conversions of the
schemas inside do. -/
theorem MentionsMissing.ofSchema (h : MentionsMissing source.definitions convert) :
    MentionsMissing source.definitions (source.ofSchema convert) := by
  intro v node hv
  unfold Source.ofSchema at hv ⊢
  split at hv
  · next schema he =>
    obtain ⟨inner, hi, -⟩ := bind_eq_ok.mp hv
    obtain ⟨names, hn, hnames⟩ := h.of_schema hi
    rw [events_bind hi, pure_eq, List.append_nil, hnames]
    exact .singleton he hn
  · simp at hv

/-- A conversion mentions the missing names that are met in the schema. -/
theorem mentionsMissing_convert : MentionsMissing source.definitions source.convert := by
  have within : ∀ fuel, MentionsMissing source.definitions (source.convertWithin fuel) := by
    intro fuel
    induction fuel with
    | zero =>
      intro v node h
      simp [convertWithin] at h
    | succ fuel ih => exact ih.ofSchema
  exact fun v => within _ v

end Source

end ZodSchemas
