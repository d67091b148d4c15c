import Mathlib.Data.List.Forall2
import ZodSchemas.Converter
import ZodSchemas.Proofs.Value.Keys

/-!
# References to defined names

A conversion defers to nothing but names that have a definition, and all that
it defers to stems from one registration. So every reference that can be met
from a converted registry is one of the registry's own: its entries are closed
under following references.
-/

namespace ZodSchemas

/-- What is on the right of a relation between lists is related to something on the left. -/
theorem exists_left_of_mem {α β : Type} {R : α → β → Prop} {xs : List α} {ys : List β}
    (h : List.Forall₂ R xs ys) {y : β} (hy : y ∈ ys) : ∃ x ∈ xs, R x y := by
  induction h with
  | nil => simp at hy
  | @cons a b _ _ hr _ ih =>
    rcases List.mem_cons.mp hy with rfl | hy
    · exact ⟨a, by simp, hr⟩
    · obtain ⟨x, hx, hr⟩ := ih hy
      exact ⟨x, List.mem_cons_of_mem _ hx, hr⟩

/-- What is on the left of a relation between lists is related to something on the right. -/
theorem exists_right_of_mem {α β : Type} {R : α → β → Prop} {xs : List α} {ys : List β}
    (h : List.Forall₂ R xs ys) {x : α} (hx : x ∈ xs) : ∃ y ∈ ys, R x y :=
  exists_left_of_mem h.flip hx

/-- A name is defined when a mapping stands under it. -/
theorem definition?_eq_some {definitions : Value} {name : Key} {schema : Entries Value} :
    Reference.definition? definitions name = .ok (some schema) ↔
      ∃ entries v, definitions.entries? = some entries ∧ Entries.find? name entries = some v ∧
        v.entries? = some schema := by
  unfold Reference.definition? Value.field? Value.entriesOf
  cases definitions.entries? with
  | none => simp [bind, Except.bind]
  | some entries => simp [bind, Except.bind, Option.bind_eq_some_iff]

namespace Node

/-- The references of an option are among those of all. -/
theorem mem_optionRefs {options : List Node} {ref : Ref} :
    ref ∈ optionRefs options ↔ ∃ option ∈ options, ref ∈ option.refs := by
  induction options with
  | nil => simp [optionRefs]
  | cons option rest ih => simp [optionRefs, ih]

/-- The references of a property are among those of all. -/
theorem mem_propertyRefs {properties : Entries Node} {ref : Ref} :
    ref ∈ propertyRefs properties ↔ ∃ e ∈ properties, ref ∈ e.2.refs := by
  induction properties with
  | nil => simp [propertyRefs]
  | cons e rest ih =>
    obtain ⟨key, node⟩ := e
    simp [propertyRefs, ih]

/-- The kinds of checks in their order. -/
def checkOrder : List CheckKind := [.min, .max, .date]

/-- A node as conversions form it, given which references are known. -/
inductive IsFormed (known : Ref → Prop) : Node → Prop where
  /-- Texts with checks in their order. -/
  | string {checks : List Check} (ordered : (checks.map (·.kind)).Sublist checkOrder) :
      IsFormed known (.string checks)
  /-- Numbers. -/
  | number : IsFormed known .number
  /-- Truth values. -/
  | boolean : IsFormed known .boolean
  /-- An object whose properties may be absent unless they are required. -/
  | object {properties : Entries Node} {required : List Key} (present : Key × Node → Node)
      (formed : ∀ e ∈ properties, IsFormed known (present e))
      (wrapped : ∀ e ∈ properties,
        e.2 = if e.1.isAmong required then present e else .optional (present e)) :
      IsFormed known (.object properties required)
  /-- A list. -/
  | array {element : Node} (formed : IsFormed known element) : IsFormed known (.array element)
  /-- Several options. -/
  | union {options : List Node} (several : 2 ≤ options.length)
      (formed : ∀ option ∈ options, IsFormed known option) : IsFormed known (.union options)
  /-- No values or several. -/
  | enum {values : List Value} (several : values.length ≠ 1) : IsFormed known (.enum values)
  /-- A single value. -/
  | literal {v : Value} : IsFormed known (.literal v)
  /-- Null beside something else. -/
  | nullable {inner : Node} (formed : IsFormed known inner) : IsFormed known (.nullable inner)
  /-- A reference that is known. -/
  | lazy {ref : Ref} (h : known ref) : IsFormed known (.lazy ref)
  /-- Nothing. -/
  | never : IsFormed known .never
  /-- Anything. -/
  | unknown : IsFormed known .unknown

/-- The references of a formed node are known. -/
theorem IsFormed.known_of_mem_refs {known : Ref → Prop} {node : Node} (h : node.IsFormed known) :
    ∀ ref ∈ node.refs, known ref := by
  induction h with
  | object present _ wrapped ih =>
    intro ref hm
    obtain ⟨e, he, hr⟩ := mem_propertyRefs.mp hm
    refine ih e he ref ?_
    rw [wrapped e he] at hr
    split at hr
    · exact hr
    · exact hr
  | array _ ih => exact ih
  | union _ _ ih =>
    intro ref hm
    obtain ⟨option, ho, hr⟩ := mem_optionRefs.mp hm
    exact ih option ho ref hr
  | nullable _ ih => exact ih
  | lazy h =>
    intro ref hm
    rwa [List.mem_singleton.mp hm]
  | _ => simp [refs]

end Node

namespace Source

variable {source : Source}

/-- A reference of the registration to a name that has a definition. -/
def Knows (source : Source) (ref : Ref) : Prop :=
  ref.origin = source.round ∧
    ∃ name schema, ref.name = .text name ∧
      Reference.definition? source.definitions (.text name) = .ok (some schema)

/-- Every reference of a node is known. -/
def KnowsAll (source : Source) (node : Node) : Prop := ∀ ref ∈ node.refs, source.Knows ref

/-- A converted reference is known, or else accepts anything. -/
theorem isFormed_reference {target : Value} {node : Node}
    (h : (source.reference target).outcome = .ok node) : node.IsFormed source.Knows := by
  rw [reference, Traced.bind_eq_ok] at h
  obtain ⟨⟨name, definition⟩, hr, h⟩ := h
  cases definition with
  | none =>
    obtain rfl : Node.unknown = node := by simpa [Traced.bind_eq_ok] using h
    exact .unknown
  | some schema =>
    obtain rfl : Node.lazy ⟨.text name, source.round⟩ = node := by
      simpa [Traced.bind_eq_ok] using h
    refine .lazy ⟨rfl, name, schema, rfl, ?_⟩
    rw [Traced.outcome_liftM, Reference.resolve, exceptBind_eq_ok] at hr
    obtain ⟨t, -, hr⟩ := hr
    obtain ⟨found, hd, hr⟩ := exceptBind_eq_ok.mp hr
    obtain ⟨rfl, rfl⟩ : t = name ∧ found = some schema := by simpa using hr
    exact hd

/-- A property with a schema is converted, and may be absent unless it is required. -/
theorem properties_cons {convert : Value → Conversion Node} {required : List Key} {key : Key}
    {schema : Value} {rest : Entries Value} (hs : schema ≠ .null) :
    properties convert required ((key, schema) :: rest) =
      convert schema >>= fun node => properties convert required rest >>= fun nodes =>
        pure ((key, if key.isAmong required then node else .optional node) :: nodes) := by
  rw [properties]
  exact hs

/-- The checks of a schema are in their order. -/
theorem kinds_stringChecks_sublist (schema : Entries Value) :
    ((stringChecks schema).map (·.kind)).Sublist Node.checkOrder := by
  unfold stringChecks
  simp only [List.map_append, List.append_assoc]
  have horder : Node.checkOrder = [CheckKind.min] ++ ([.max] ++ [.date]) := rfl
  rw [horder]
  refine .append ?_ (.append ?_ ?_)
  · split <;> simp
  · split <;> simp
  · split <;> simp

section Forms

variable {convert : Value → Conversion Node}

/-- The properties of an object are formed when their schemas are converted to formed nodes. -/
theorem exists_of_mem_properties {required : List Key} {entries : Entries Value}
    {nodes : Entries Node}
    (hc : ∀ v node, (convert v).outcome = .ok node → node.IsFormed source.Knows)
    (h : (properties convert required entries).outcome = .ok nodes) :
    ∀ e ∈ nodes, ∃ node : Node, node.IsFormed source.Knows ∧
      e.2 = if e.1.isAmong required then node else .optional node := by
  induction entries generalizing nodes with
  | nil =>
    obtain rfl : [] = nodes := by simpa [properties] using h
    simp
  | cons e rest ih =>
    obtain ⟨key, schema⟩ := e
    by_cases hs : schema = .null
    · subst hs
      exact ih h
    · rw [properties_cons hs] at h
      obtain ⟨node, hv, h⟩ := Traced.bind_eq_ok.mp h
      obtain ⟨others, hr, h⟩ := Traced.bind_eq_ok.mp h
      obtain rfl := Traced.pure_eq_ok.mp h
      exact List.forall_mem_cons.mpr ⟨⟨node, hc schema node hv, rfl⟩, ih hr⟩

/-- A converted object is formed when its properties are. -/
theorem isFormed_object {schemas : Option Value} {names : Except Fault (List Value)} {node : Node}
    (hc : ∀ v node, (convert v).outcome = .ok node → node.IsFormed source.Knows)
    (h : (object convert schemas names).outcome = .ok node) : node.IsFormed source.Knows := by
  obtain ⟨keys, -, h⟩ := Traced.bind_eq_ok.mp h
  obtain ⟨entries, -, h⟩ := Traced.bind_eq_ok.mp h
  obtain ⟨nodes, hp, h⟩ := Traced.bind_eq_ok.mp h
  obtain rfl := Traced.pure_eq_ok.mp h
  choose! present formed wrapped using exists_of_mem_properties hc hp
  exact .object present formed wrapped

/-- Formed options are formed together. -/
theorem isFormed_anyOf {known : Ref → Prop} {nodes : List Node}
    (h : ∀ node ∈ nodes, node.IsFormed known) : (anyOf nodes).IsFormed known := by
  match nodes with
  | [] => exact .never
  | [node] => exact h node (by simp)
  | _ :: _ :: _ => exact .union (by simp) h

/-- Values are formed together. -/
theorem isFormed_ofValues {known : Ref → Prop} (values : List Value) :
    (Node.ofValues values).IsFormed known := by
  unfold Node.ofValues
  split
  · exact .literal
  · next values hone =>
    refine .enum fun hl => ?_
    obtain ⟨v, rfl⟩ := List.length_eq_one_iff.mp hl
    exact hone v rfl

/-- The node of a form is formed when the schemas inside are converted to formed nodes. -/
theorem isFormed_ofForm {form : Form} {node : Node}
    (hc : ∀ v node, (convert v).outcome = .ok node → node.IsFormed source.Knows)
    (hs : ∀ checks, form = .string checks → (checks.map (·.kind)).Sublist Node.checkOrder)
    (h : (source.ofForm convert form).outcome = .ok node) : node.IsFormed source.Knows := by
  cases form with
  | reference target => exact isFormed_reference h
  | allOf members =>
    obtain ⟨items, -, h⟩ := Traced.bind_eq_ok.mp h
    obtain ⟨merged, -, h⟩ := Traced.bind_eq_ok.mp h
    exact isFormed_object hc h
  | anyOf members =>
    obtain ⟨items, -, h⟩ := Traced.bind_eq_ok.mp h
    obtain ⟨nodes, hn, h⟩ := Traced.bind_eq_ok.mp h
    obtain rfl := Traced.pure_eq_ok.mp h
    refine isFormed_anyOf fun n hm => ?_
    have hmem : Except.ok n ∈ items.map fun v => (convert v).outcome := by
      rw [Traced.mapM_eq_ok.mp hn]
      exact List.mem_map_of_mem hm
    obtain ⟨v, -, hv⟩ := List.mem_map.mp hmem
    exact hc v n hv
  | object schemas required => exact isFormed_object hc h
  | array items =>
    cases items with
    | none =>
      obtain rfl := Traced.pure_eq_ok.mp h
      exact .array .unknown
    | some items =>
      rw [ofForm] at h
      split at h
      · obtain ⟨element, he, h⟩ := Traced.bind_eq_ok.mp h
        obtain rfl := Traced.pure_eq_ok.mp h
        exact .array (hc items element he)
      · obtain rfl := Traced.pure_eq_ok.mp h
        exact .array .unknown
  | choice values =>
    obtain ⟨listed, -, h⟩ := Traced.bind_eq_ok.mp h
    obtain rfl := Traced.pure_eq_ok.mp h
    exact isFormed_ofValues listed
  | string checks =>
    obtain rfl := Traced.pure_eq_ok.mp h
    exact .string (hs checks rfl)
  | number =>
    obtain rfl := Traced.pure_eq_ok.mp h
    exact .number
  | boolean =>
    obtain rfl := Traced.pure_eq_ok.mp h
    exact .boolean
  | anything =>
    obtain rfl := Traced.pure_eq_ok.mp h
    exact .unknown

/-- The checks of a form are in their order. -/
theorem kinds_sublist_of_form {schema : Entries Value} {checks : List Check}
    (h : Form.of schema = .string checks) : (checks.map (·.kind)).Sublist Node.checkOrder := by
  have ofType : Form.ofType schema = .string checks → checks = stringChecks schema := by
    unfold Form.ofType
    simp only
    grind
  unfold Form.of at h
  split at h
  · simp at h
  · split at h
    · simp at h
    · split at h
      · simp at h
      · split at h
        · simp at h
        · rw [ofType h]
          exact kinds_stringChecks_sublist schema

/-- The node of a schema is formed when the schemas inside are converted to formed nodes. -/
theorem isFormed_ofSchema {v : Value} {node : Node}
    (hc : ∀ v node, (convert v).outcome = .ok node → node.IsFormed source.Knows)
    (h : (source.ofSchema convert v).outcome = .ok node) : node.IsFormed source.Knows := by
  unfold ofSchema at h
  split at h
  · obtain ⟨inner, hi, h⟩ := Traced.bind_eq_ok.mp h
    obtain rfl := Traced.pure_eq_ok.mp h
    have hf := isFormed_ofForm hc (fun _ => kinds_sublist_of_form) hi
    split
    · exact .nullable hf
    · exact hf
  · simp at h

end Forms

/-- A schema is converted to a formed node. -/
theorem isFormed_convert {v : Value} {node : Node} (h : (source.convert v).outcome = .ok node) :
    node.IsFormed source.Knows := by
  have within : ∀ fuel v node, (source.convertWithin fuel v).outcome = .ok node →
      node.IsFormed source.Knows := by
    intro fuel
    induction fuel with
    | zero => simp [convertWithin]
    | succ fuel ih => exact fun v node h => isFormed_ofSchema ih h
  exact within _ v node h

/-- A schema is converted to a node whose references are all known. -/
theorem knowsAll_convert {v : Value} {node : Node} (h : (source.convert v).outcome = .ok node) :
    source.KnowsAll node :=
  (isFormed_convert h).known_of_mem_refs

end Source

namespace Registry

variable {registry : Registry}

/-- What a reference is resolved to is its body. -/
theorem resolve_eq_ok {ref : Ref} {body : Node} :
    (registry.resolve ref).outcome = .ok body ↔ registry.body ref = .ok body := by
  simp [resolve, Traced.outcome_bind, Except.bind]

/-- A reference is not resolved when it has no body. -/
theorem resolve_eq_error {ref : Ref} {fault : Fault} :
    (registry.resolve ref).outcome = .error fault ↔ registry.body ref = .error fault := by
  simp [resolve, Traced.outcome_bind, Except.bind]

/-- All references that can be met from the bodies of a registry are its own. -/
def IsClosed (registry : Registry) : Prop :=
  ∀ ref body, registry.body ref = .ok body → ∀ next ∈ body.refs, next ∈ registry.refs

end Registry

namespace Converter

/-- A name with a definition is among the defined names. -/
theorem isAmong_definedNames {definitions : Value} {name : Key} {schema : Entries Value}
    (h : Reference.definition? definitions name = .ok (some schema)) :
    name.isAmong (definedNames definitions) = true := by
  obtain ⟨entries, v, hl, hv, hs⟩ := definition?_eq_some.mp h
  obtain ⟨k, hk, hm⟩ := Entries.mem_of_find? hv
  refine Key.isAmong_iff.mpr ⟨k, ?_, hk⟩
  exact List.mem_filterMap.mpr ⟨(k, v), by simpa [hl] using hm, by simp [hs]⟩

/-- The references of a converter are those to all defined names. -/
theorem mem_refs_of_knows {c : Converter} {ref : Ref} (h : c.source.Knows ref) :
    ref ∈ c.registry.refs := by
  obtain ⟨name, origin⟩ := ref
  obtain ⟨rfl, t, schema, rfl, hd⟩ := h
  exact List.mem_map_of_mem (Key.text_mem_of_isAmong (isAmong_definedNames hd))

/-- The body behind a reference is the node of the definition of its name, or anything where there
is none. -/
theorem body_eq_ok {c : Converter} {ref : Ref} {body : Node} : c.registry.body ref = .ok body ↔
    (∃ schema, Reference.definition? c.definitions ref.name = .ok (some schema) ∧
      (c.source.convert (.map schema)).outcome = .ok body) ∨
    Reference.definition? c.definitions ref.name = .ok none ∧ body = .unknown := by
  change (c.conversionOf ref).outcome = .ok body ↔ _
  rw [conversionOf, Traced.bind_eq_ok]
  constructor
  · rintro ⟨definition, hd, hb⟩
    cases definition with
    | none => exact .inr ⟨hd, (Traced.pure_eq_ok.mp hb).symm⟩
    | some schema => exact .inl ⟨schema, hd, hb⟩
  · rintro (⟨schema, hd, hb⟩ | ⟨hd, rfl⟩)
    · exact ⟨some schema, hd, hb⟩
    · exact ⟨none, hd, rfl⟩

/-- The references of every body are known. -/
theorem knowsAll_body {c : Converter} {ref : Ref} {body : Node}
    (h : c.registry.body ref = .ok body) : c.source.KnowsAll body := by
  rcases body_eq_ok.mp h with ⟨schema, -, h⟩ | ⟨-, rfl⟩
  · exact Source.knowsAll_convert h
  · simp [Source.KnowsAll, Node.refs]

/-- The names of a registry are those of the entries of its converter. -/
theorem keys_entries_registry (c : Converter) :
    Entries.keys c.registry.entries = Entries.keys c.entries := by
  simp [registry, Entries.keys]

/-- The registry of a converter is closed. -/
theorem registry_isClosed (c : Converter) : c.registry.IsClosed :=
  fun _ _ h next hn => mem_refs_of_knows (knowsAll_body h next hn)

/-- A converter of a document has registered each defined name once, in order. -/
theorem entries_of_convertDocument {document : Value} {c : Converter}
    (h : convertDocument document = .ok c) :
    c.entries = Entries.ofPairs ((definedNames c.definitions).map fun name =>
      (name, ⟨name, c.round⟩)) := by
  obtain ⟨start, hs, h⟩ := exceptBind_eq_ok.mp h
  obtain ⟨definitions, -, hs⟩ := exceptBind_eq_ok.mp hs
  obtain ⟨entries, -, h⟩ := exceptBind_eq_ok.mp h
  obtain rfl : _ = start := by simpa only [Except.ok.injEq] using hs
  obtain rfl : _ = c := by simpa only [Except.ok.injEq] using h
  rfl

/-- A converter of a document has registered all definitions once and followed no reference. -/
theorem fresh_of_convertDocument {document : Value} {c : Converter}
    (h : convertDocument document = .ok c) :
    c.round = 1 ∧ c.converted = [] ∧ c.missing = [] := by
  obtain ⟨start, hs, h⟩ := exceptBind_eq_ok.mp h
  obtain ⟨definitions, -, hs⟩ := exceptBind_eq_ok.mp hs
  obtain ⟨entries, -, h⟩ := exceptBind_eq_ok.mp h
  obtain rfl := Except.ok.inj hs
  obtain rfl := Except.ok.inj h
  exact ⟨rfl, rfl, rfl⟩

/-- Converters of documents have registered their definitions equally often. -/
theorem round_eq {document changed : Value} {c other : Converter}
    (hc : convertDocument document = .ok c) (ho : convertDocument changed = .ok other) :
    c.round = other.round :=
  (fresh_of_convertDocument hc).1.trans (fresh_of_convertDocument ho).1.symm

/-- A document whose definitions are a mapping has a converter of them. -/
theorem exists_convertDocument {document definitions : Value} {entries : Entries Value}
    (hd : definitionsOf document = .ok definitions) (he : definitions.entries? = some entries) :
    ∃ c, convertDocument document = .ok c ∧ c.definitions = definitions := by
  have hs : ofDocument document = .ok ⟨definitions, 0, [], [], []⟩ :=
    exceptBind_eq_ok.mpr ⟨definitions, hd, rfl⟩
  have hentries : definitions.entriesOf = .ok entries := by rw [Value.entriesOf, he]
  exact ⟨_, exceptBind_eq_ok.mpr ⟨_, hs, exceptBind_eq_ok.mpr ⟨entries, hentries, rfl⟩⟩, rfl⟩

/-- The names that are defined come in the order of the definitions. -/
theorem definedNames_sublist {definitions : Value} {entries : Entries Value}
    (h : definitions.entries? = some entries) :
    (definedNames definitions).Sublist (Entries.keys entries) := by
  have inside : ∀ entries : Entries Value,
      (definedNames (.map entries)).Sublist (Entries.keys entries) := by
    intro entries
    induction entries with
    | nil => exact .slnil
    | cons e rest ih =>
      obtain ⟨name, v⟩ := e
      have hrest : (Value.map rest).entries? = some rest := rfl
      have hall : (Value.map ((name, v) :: rest)).entries? = some ((name, v) :: rest) := rfl
      rw [definedNames, hrest] at ih
      rw [definedNames, hall]
      cases hv : v.entries?.isSome with
      | true => simpa [hv, Entries.keys] using ih
      | false => simpa [hv, Entries.keys] using ih.cons name
  have hsame : definedNames definitions = definedNames (.map entries) := by
    rw [definedNames, h]
    rfl
  rw [hsame]
  exact inside entries

section Entries

variable {document : Value} {c : Converter} {entries : Entries Value}

/-- A converter of a document that defines different names has registered each of them, with the
reference to it. -/
theorem entries_eq_map (h : convertDocument document = .ok c)
    (he : c.definitions.entries? = some entries) (hd : KeysDiffer (Entries.keys entries)) :
    c.entries = (definedNames c.definitions).map fun name => (name, ⟨name, c.round⟩) := by
  have hnames : KeysDiffer (Entries.keys ((definedNames c.definitions).map fun name =>
      (name, (⟨name, c.round⟩ : Ref)))) := by
    simpa [KeysDiffer, Entries.keys, Function.comp_def] using hd.sublist (definedNames_sublist he)
  rw [entries_of_convertDocument h, Entries.ofPairs_eq_self hnames]

/-- The entries of a document that defines different names are those of the defined names, each with
a reference to itself. -/
theorem entries_registry (h : convertDocument document = .ok c)
    (he : c.definitions.entries? = some entries) (hd : KeysDiffer (Entries.keys entries)) :
    c.registry.entries =
      (definedNames c.definitions).map fun name => (name, .lazy ⟨name, c.round⟩) := by
  rw [registry, entries_eq_map h he hd, List.map_map]
  rfl

end Entries

end Converter

end ZodSchemas
