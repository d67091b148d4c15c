import ZodSchemas.Proofs.Conversion.Forms
import ZodSchemas.Proofs.Conversion.Unbounded

/-!
# Schemas that are converted

Where every keyword that a conversion looks into holds a value of the right
sort, in a schema and in all schemas inside it, the schema is converted. Less is
asked than of a well-formed schema: lengths, types and listed values may be
anything, and a property may come twice. What holds of the nodes that a schema
needs no further schema for, and of a node when it holds of the nodes inside,
holds of the node of the schema.
-/

namespace ZodSchemas

namespace Traced

variable {ω ε α β : Type} {P : α → Prop} {Q : β → Prop}

/-- A computation ends with a value, and something holds of it. -/
def Gives (x : Traced ω ε α) (P : α → Prop) : Prop := ∃ a, x.outcome = .ok a ∧ P a

/-- A value alone is what the computation ends with. -/
theorem gives_pure {a : α} (h : P a) : (pure a : Traced ω ε α).Gives P := ⟨a, rfl, h⟩

/-- A value that is no computation yet is what the computation ends with. -/
theorem gives_liftM {x : Except ε α} {a : α} (hx : x = .ok a) (h : P a) :
    (liftM x : Traced ω ε α).Gives P := ⟨a, hx, h⟩

/-- What follows a value may rely on what holds of it. -/
theorem Gives.bind {x : Traced ω ε α} {f : α → Traced ω ε β} (h : x.Gives P)
    (hf : ∀ a, P a → (f a).Gives Q) : (x >>= f).Gives Q := by
  obtain ⟨a, hx, ha⟩ := h
  obtain ⟨b, hb, hq⟩ := hf a ha
  exact ⟨b, bind_eq_ok.mpr ⟨a, hx, hb⟩, hq⟩

/-- A list of computations ends with a list of values. -/
theorem gives_mapM {f : α → Traced ω ε β} {xs : List α} (h : ∀ x ∈ xs, (f x).Gives Q) :
    (xs.mapM f).Gives fun ys => ∀ y ∈ ys, Q y := by
  induction xs with
  | nil => exact gives_pure (by simp)
  | cons x rest ih =>
    rw [List.mapM_cons]
    refine (h x (by simp)).bind fun y hy => ?_
    refine (ih fun z hz => h z (List.mem_cons_of_mem _ hz)).bind fun ys hys => ?_
    exact gives_pure (List.forall_mem_cons.mpr ⟨hy, hys⟩)

end Traced

namespace Entries

variable {α : Type} {K : Key → Prop} {P : α → Prop} {entries others : Entries α}

/-- What holds of all entries and of what is written holds of all entries afterwards. -/
theorem forall_mem_put {key : Key} {a : α} (h : ∀ e ∈ entries, K e.1 ∧ P e.2) (hk : K key)
    (ha : P a) : ∀ e ∈ put key a entries, K e.1 ∧ P e.2 := by
  induction entries with
  | nil => simpa [put] using ⟨hk, ha⟩
  | cons e rest ih =>
    obtain ⟨k, b⟩ := e
    obtain ⟨hfirst, hrest⟩ := List.forall_mem_cons.mp h
    rw [put]
    split
    · exact List.forall_mem_cons.mpr ⟨⟨hfirst.1, ha⟩, hrest⟩
    · exact List.forall_mem_cons.mpr ⟨hfirst, ih hrest⟩

/-- What holds of the entries of two sides holds of all entries after a merge. -/
theorem forall_mem_merge (h : ∀ e ∈ entries, K e.1 ∧ P e.2) (ho : ∀ e ∈ others, K e.1 ∧ P e.2) :
    ∀ e ∈ merge entries others, K e.1 ∧ P e.2 := by
  induction others generalizing entries with
  | nil => exact h
  | cons e rest ih =>
    obtain ⟨hfirst, hrest⟩ := List.forall_mem_cons.mp ho
    exact ih (forall_mem_put h hfirst.1 hfirst.2) hrest

end Entries

/-- The keywords of a schema that conversions look into hold values of the right sort. -/
structure IsReadable (schema : Entries Value) : Prop where
  /-- A reference is a text. -/
  reference : ∀ v, Entries.find? "$ref" schema = some v → ∃ t, v = .text t
  /-- Members are listed, and each is a mapping. -/
  members : ∀ keyword ∈ memberKeywords, ∀ v, Entries.find? keyword schema = some v →
    ∃ items, v.shape = .list items ∧ ∀ m ∈ items, ∃ sub, m.entries? = some sub
  /-- Properties are a mapping from texts to mappings or nothing, or nothing at all. -/
  properties : ∀ v, Entries.find? "properties" schema = some v → v = .null ∨ ∃ entries,
    v.entries? = some entries ∧
      ∀ e ∈ entries, (∃ t, e.1 = .text t) ∧ (e.2 = .null ∨ ∃ sub, e.2.entries? = some sub)
  /-- Required names are listed texts. -/
  required : ∀ v, Entries.find? "required" schema = some v →
    ∃ names : List Text, v.shape = .list (names.map .text)
  /-- The schema of elements is a mapping. -/
  items : ∀ v, Entries.find? "items" schema = some v → ∃ sub, v.entries? = some sub
  /-- The values that a text is one of are listed. -/
  choice : ∀ v, Entries.find? "enum" schema = some v → ∃ values, v.shape = .list values

/-- What holds of some nodes holds of every node that is built from them. -/
structure Node.IsBuilding (P : Node → Prop) : Prop where
  /-- Objects whose properties have texts as keys. -/
  object : ∀ {properties : Entries Node} {required : List Key},
    (∀ e ∈ properties, (∃ t, e.1 = .text t) ∧ P e.2) → P (.object properties required)
  /-- Lists. -/
  array : ∀ {element : Node}, P element → P (.array element)
  /-- Unions. -/
  union : ∀ {options : List Node}, (∀ option ∈ options, P option) → P (.union options)
  /-- Null or something. -/
  nullable : ∀ {inner : Node}, P inner → P (.nullable inner)
  /-- Nothing or something. -/
  optional : ∀ {inner : Node}, P inner → P (.optional inner)
  /-- References to texts. -/
  lazy : ∀ (name : Text) (origin : Nat), P (.lazy ⟨.text name, origin⟩)
  /-- Numbers. -/
  number : P .number
  /-- Truth values. -/
  boolean : P .boolean
  /-- Nothing. -/
  never : P .never
  /-- Anything. -/
  unknown : P .unknown

/-- A schema can be read, and something holds of the nodes that it needs no schema inside for. -/
structure IsReadableFor (P : Node → Prop) (schema : Entries Value) : Prop where
  /-- The schema can be read. -/
  readable : IsReadable schema
  /-- It holds of texts with the checks of the schema. -/
  string : P (.string (stringChecks schema))
  /-- It holds of the values that are listed. -/
  choice : ∀ v values, Entries.find? "enum" schema = some v → v.shape = .list values →
    P (.ofValues values)

/-- Every value of a keyword that is not there is right. -/
theorem forall_of_find?_eq_none {schema : Entries Value} {keyword : Key} {p : Value → Prop}
    (h : Entries.find? keyword schema = none) :
    ∀ v, Entries.find? keyword schema = some v → p v := by
  simp [h]

/-- A schema that no schemas stand under is no deeper than itself. -/
theorem throughout_of_flat {p : Entries Value → Prop} {schema : Entries Value} (h : p schema)
    (hn : ∀ keyword ∈ nestingKeywords, Entries.find? keyword schema = none) :
    Throughout p schema ∧ Acc Inside schema :=
  ⟨.of_parts h fun _ hi => absurd hi (not_inside hn),
    .intro _ fun _ hi => absurd hi (not_inside hn)⟩

section Properties

variable {schema : Entries Value}

/-- The schema of a property: nothing, or a schema inside another one. -/
def IsUnder (schema : Entries Value) (v : Value) : Prop :=
  v = .null ∨ ∃ sub, v.entries? = some sub ∧ Relation.TransGen Inside sub schema

/-- The properties of a schema that can be read have texts as keys and schemas inside it. -/
theorem IsReadable.exists_properties (h : IsReadable schema) : ∃ entries,
    (Value.orEmpty (Entries.find? "properties" schema)).entries? = some entries ∧
      ∀ e ∈ entries, (∃ t, e.1 = .text t) ∧ IsUnder schema e.2 := by
  cases hv : Entries.find? "properties" schema with
  | none => exact ⟨[], rfl, by simp⟩
  | some v =>
    rcases h.properties v hv with rfl | ⟨entries, he, hk⟩
    · exact ⟨[], rfl, by simp⟩
    · refine ⟨entries, orEmpty_of_entries? he, fun e hm => ⟨(hk e hm).1, ?_⟩⟩
      exact (hk e hm).2.imp_right fun ⟨sub, hs⟩ => ⟨sub, hs, .single (.property hv he hm hs)⟩

/-- The required names of a schema that can be read are texts. -/
theorem IsReadable.exists_required (h : IsReadable schema) : ∃ names : List Text,
    Value.itemsIfAny (Entries.find? "required" schema) = .ok (names.map .text) := by
  cases hv : Entries.find? "required" schema with
  | none => exact ⟨[], rfl⟩
  | some v =>
    obtain ⟨names, hn⟩ := h.required v hv
    exact ⟨names, itemsIfAny_of_shape hn⟩

/-- The properties have texts as keys and schemas inside a schema, and the required names are
texts. -/
structure Merged.IsUnder (schema : Entries Value) (merged : Merged) : Prop where
  /-- Each property has a text as its key, and its schema is inside. -/
  properties : ∀ e ∈ merged.properties, (∃ t, e.1 = .text t) ∧ ZodSchemas.IsUnder schema e.2
  /-- The required names are texts. -/
  required : ∃ names : List Text, merged.required = names.map .text

/-- A member inside a schema is taken along. -/
theorem Merged.IsUnder.exists_add {merged : Merged} (h : merged.IsUnder schema) {m : Value}
    {sub : Entries Value} (hm : m.entries? = some sub) (hs : IsReadable sub)
    (hi : Relation.TransGen Inside sub schema) :
    ∃ next, merged.add m = .ok next ∧ next.IsUnder schema := by
  have hentries : m.entriesOf = .ok sub := by rw [Value.entriesOf, hm]
  by_cases ho : isObject sub = true
  · obtain ⟨properties, he, hk⟩ := hs.exists_properties
    obtain ⟨required, hn⟩ := hs.exists_required
    obtain ⟨names, hnames⟩ := h.required
    have hd : declaredProperties sub = .ok properties := by simp only [declaredProperties, he]
    refine ⟨⟨Entries.merge merged.properties properties, merged.required ++ required.map .text⟩,
      exceptBind_eq_ok.mpr ⟨sub, hentries, ?_⟩, ?_, names ++ required, ?_⟩
    · rw [if_pos ho]
      exact exceptBind_eq_ok.mpr ⟨properties, hd, exceptBind_eq_ok.mpr ⟨_, hn, rfl⟩⟩
    · refine Entries.forall_mem_merge (K := fun key => ∃ t, key = .text t) h.properties
        fun e hm => ⟨(hk e hm).1, ?_⟩
      exact (hk e hm).2.imp_right fun hp => hp.imp fun _ => And.imp_right (·.trans hi)
    · simp [hnames]
  · refine ⟨merged, exceptBind_eq_ok.mpr ⟨sub, hentries, ?_⟩, h⟩
    rw [if_neg ho]

/-- Members inside a schema are taken together. -/
theorem exists_ofMembers {members : List Value} (h : ∀ m ∈ members, ∃ sub, m.entries? = some sub ∧
      IsReadable sub ∧ Relation.TransGen Inside sub schema) :
    ∃ merged, Merged.ofMembers members = .ok merged ∧ merged.IsUnder schema := by
  have fold : ∀ start : Merged, start.IsUnder schema →
      ∃ merged, members.foldlM Merged.add start = .ok merged ∧ merged.IsUnder schema := by
    induction members with
    | nil => exact fun start hs => ⟨start, rfl, hs⟩
    | cons m rest ih =>
      intro start hstart
      obtain ⟨⟨sub, hm, hs, hi⟩, hrest⟩ := List.forall_mem_cons.mp h
      obtain ⟨next, hadd, hnext⟩ := hstart.exists_add hm hs hi
      obtain ⟨merged, hfold, hmerged⟩ := ih hrest next hnext
      rw [List.foldlM_cons]
      exact ⟨merged, exceptBind_eq_ok.mpr ⟨next, hadd, hfold⟩, hmerged⟩
  exact fold ⟨[], []⟩ ⟨by simp, [], rfl⟩

end Properties

namespace Source

variable {source : Source} {P : Node → Prop} {schema definitions : Entries Value}

/-- The schemas inside a schema are converted to nodes of which something holds. -/
def GivesInside (source : Source) (P : Node → Prop) (schema : Entries Value) : Prop :=
  ∀ v sub, v.entries? = some sub → Relation.TransGen Inside sub schema →
    (source.convert v).Gives P

namespace GivesInside

variable (hc : source.GivesInside P schema) (hb : Node.IsBuilding P)

include hc hb

/-- Properties with schemas inside are converted. -/
theorem properties (required : List Key) {entries : Entries Value}
    (h : ∀ e ∈ entries, (∃ t, e.1 = .text t) ∧ IsUnder schema e.2) :
    (Source.properties source.convert required entries).Gives fun nodes =>
      ∀ e ∈ nodes, (∃ t, e.1 = .text t) ∧ P e.2 := by
  induction entries with
  | nil => exact Traced.gives_pure (by simp)
  | cons e rest ih =>
    obtain ⟨key, v⟩ := e
    obtain ⟨⟨hkey, hv⟩, hrest⟩ := List.forall_mem_cons.mp h
    have hrest := ih hrest
    by_cases hnull : v = .null
    · subst hnull
      exact hrest
    · obtain ⟨sub, hs, hi⟩ := hv.resolve_left hnull
      rw [properties_cons hnull]
      refine (hc v sub hs hi).bind fun node hn => hrest.bind fun nodes hns => ?_
      refine Traced.gives_pure (List.forall_mem_cons.mpr ⟨⟨hkey, ?_⟩, hns⟩)
      dsimp only
      split
      · exact hn
      · exact hb.optional hn

/-- Objects whose properties have schemas inside are converted. -/
theorem object {schemas : Option Value} {entries : Entries Value}
    (he : (Value.orEmpty schemas).entries? = some entries)
    (h : ∀ e ∈ entries, (∃ t, e.1 = .text t) ∧ IsUnder schema e.2)
    {names : Except Fault (List Value)} {texts : List Text}
    (hn : names = .ok (texts.map .text)) :
    (Source.object source.convert schemas names).Gives P := by
  have hkeys : names.bind keysOf = .ok (texts.map .text) := by
    rw [hn]
    exact keysOf_texts texts
  have hentries : (Value.orEmpty schemas).entriesOf = .ok entries := by rw [Value.entriesOf, he]
  refine (Traced.gives_liftM hkeys rfl).bind fun keys _ => ?_
  refine (Traced.gives_liftM hentries rfl).bind ?_
  rintro _ rfl
  exact (hc.properties hb _ h).bind fun nodes hnodes => Traced.gives_pure (hb.object hnodes)

/-- Options that are schemas inside are converted. -/
theorem anyOf {v : Value} {keyword : Text} (hk : keyword ∈ memberKeywords)
    (hv : Entries.find? keyword schema = some v) (hs : IsReadable schema) :
    (source.ofForm source.convert (.anyOf v)).Gives P := by
  obtain ⟨items, hi, hm⟩ := hs.members keyword hk v hv
  refine (Traced.gives_liftM (itemsOf_of_shape hi) rfl).bind ?_
  rintro _ rfl
  have hnodes : (items.mapM source.convert).Gives fun nodes => ∀ node ∈ nodes, P node := by
    refine Traced.gives_mapM fun m hmem => ?_
    obtain ⟨sub, he⟩ := hm m hmem
    exact hc m sub he (.single (.member hk ⟨v, hv, hi⟩ hmem he))
  refine hnodes.bind fun nodes hn => Traced.gives_pure ?_
  match nodes with
  | [] => exact hb.never
  | [node] => exact hn node (by simp)
  | _ :: _ :: _ => exact hb.union hn

/-- Members that are schemas inside are taken together. -/
theorem allOf {v : Value} (hv : Entries.find? "allOf" schema = some v)
    (hs : Throughout IsReadable schema) : (source.ofForm source.convert (.allOf v)).Gives P := by
  obtain ⟨items, hi, hm⟩ := hs.self.members "allOf" (by simp [memberKeywords]) v hv
  have hinside : ∀ m ∈ items, ∃ sub, m.entries? = some sub ∧ IsReadable sub ∧
      Relation.TransGen Inside sub schema := by
    intro m hmem
    obtain ⟨sub, he⟩ := hm m hmem
    have hin : Inside sub schema := .member (by simp [memberKeywords]) ⟨v, hv, hi⟩ hmem he
    exact ⟨sub, he, hs sub (.single hin), .single hin⟩
  obtain ⟨merged, hmerged, hunder⟩ := exists_ofMembers hinside
  obtain ⟨names, hnames⟩ := hunder.required
  refine (Traced.gives_liftM (itemsOf_of_shape hi) rfl).bind ?_
  rintro _ rfl
  refine (Traced.gives_liftM hmerged rfl).bind ?_
  rintro _ rfl
  exact hc.object hb (orEmpty_of_entries? rfl) hunder.properties (congrArg Except.ok hnames)

/-- Lists of a schema inside are converted. -/
theorem array (hs : IsReadable schema) :
    (source.ofForm source.convert (.array (Entries.find? "items" schema))).Gives P := by
  cases hv : Entries.find? "items" schema with
  | none => exact Traced.gives_pure (hb.array hb.unknown)
  | some v =>
    obtain ⟨sub, he⟩ := hs.items v hv
    rw [ofForm]
    split
    · exact (hc v sub he (.single (.items hv he))).bind fun element h =>
        Traced.gives_pure (hb.array h)
    · exact Traced.gives_pure (hb.array hb.unknown)

/-- The form that its type gives a schema is converted. -/
theorem ofType (hs : IsReadableFor P schema) :
    (source.ofForm source.convert (.ofType schema)).Gives P := by
  unfold Form.ofType
  dsimp only
  split
  · obtain ⟨entries, he, hp⟩ := hs.readable.exists_properties
    obtain ⟨names, hn⟩ := hs.readable.exists_required
    exact hc.object hb he hp hn
  · split
    · exact hc.array hb hs.readable
    · split
      · cases hv : Entries.find? "enum" schema with
        | none => exact Traced.gives_pure hs.string
        | some v =>
          obtain ⟨values, hl⟩ := hs.readable.choice v hv
          refine (Traced.gives_liftM (itemsOf_of_shape hl) rfl).bind ?_
          rintro _ rfl
          exact Traced.gives_pure (hs.choice v values hv hl)
      · split
        · exact Traced.gives_pure hb.number
        · split
          · exact Traced.gives_pure hb.boolean
          · exact Traced.gives_pure hb.unknown

/-- What a schema asks for is converted. -/
theorem ofForm (hd : source.definitions.entries? = some definitions)
    (hs : Throughout (IsReadableFor P) schema) :
    (source.ofForm source.convert (.of schema)).Gives P := by
  unfold Form.of
  split
  · next target ht =>
    obtain ⟨t, rfl⟩ := hs.self.readable.reference target ht
    obtain ⟨found, hfound⟩ := exists_definition? hd (.text (t.afterLast '/'))
    have hr : Reference.resolve source.definitions (.text t) = .ok (t.afterLast '/', found) := by
      simp [Reference.resolve, Reference.target, hfound, bind, Except.bind]
    refine (Traced.gives_liftM hr rfl).bind ?_
    rintro _ rfl
    cases found with
    | none => exact ⟨.unknown, rfl, hb.unknown⟩
    | some target => exact ⟨_, rfl, hb.lazy _ _⟩
  · split
    · next hv => exact hc.allOf hb hv fun sub hi => (hs sub hi).readable
    · split
      · next hv => exact hc.anyOf hb (by simp [memberKeywords]) hv hs.self.readable
      · split
        · next hv => exact hc.anyOf hb (by simp [memberKeywords]) hv hs.self.readable
        · exact hc.ofType hb hs.self

end GivesInside

/-- A schema that can be read and is not inside itself is converted. -/
theorem gives_convert (hb : Node.IsBuilding P) (hd : source.definitions.entries? = some definitions)
    (ha : Acc Inside schema) (hs : Throughout (IsReadableFor P) schema) {v : Value}
    (hv : v.entries? = some schema) : (source.convert v).Gives P := by
  induction ha.transGen generalizing v with
  | intro schema _ ih =>
    have hc : source.GivesInside P schema := fun w sub hw hi =>
      ih sub hi (ha.inv_of_transGen hi) (hs.inside hi) hw
    have hstep : (source.ofSchema source.convert v).Gives P := by
      rw [ofSchema, hv]
      refine (hc.ofForm hb hd hs).bind fun node hn => ?_
      split
      · exact Traced.gives_pure (hb.nullable hn)
      · exact Traced.gives_pure hn
    obtain ⟨node, hnode, hn⟩ := hstep
    refine ⟨node, ?_, hn⟩
    rw [ofSchema_convert_reaches v (by simp [hnode]), hnode]

end Source

/-- Definitions by name, throughout each of which something holds, and none of which is inside
itself. -/
structure AreSchemas (p : Entries Value → Prop) (definitions : Value) : Prop where
  /-- The definitions are a mapping from texts to such schemas. -/
  mapping : ∃ entries, definitions.entries? = some entries ∧ ∀ e ∈ entries,
    (∃ t, e.1 = .text t) ∧ ∃ schema, e.2.entries? = some schema ∧ Throughout p schema ∧
      Acc Inside schema

namespace AreSchemas

variable {p q : Entries Value → Prop} {definitions : Value}

/-- What follows from something holds throughout where that does. -/
theorem mono (h : AreSchemas p definitions) (hq : ∀ schema, p schema → q schema) :
    AreSchemas q definitions := by
  obtain ⟨entries, he, hentries⟩ := h.mapping
  refine ⟨entries, he, fun e hm => ?_⟩
  obtain ⟨hkey, schema, hs, hp, ha⟩ := hentries e hm
  exact ⟨hkey, schema, hs, fun sub hi => hq sub (hp sub hi), ha⟩

/-- It holds throughout the definition of a name. -/
theorem of_definition? (h : AreSchemas p definitions) {name : Key} {schema : Entries Value}
    (hd : Reference.definition? definitions name = .ok (some schema)) :
    Throughout p schema ∧ Acc Inside schema := by
  obtain ⟨entries, he, hentries⟩ := h.mapping
  obtain ⟨listed, v, hl, hv, hs⟩ := definition?_eq_some.mp hd
  obtain rfl := Option.some.inj (he.symm.trans hl)
  obtain ⟨k, -, hm⟩ := Entries.mem_of_find? hv
  obtain ⟨-, found, hf, hp, ha⟩ := hentries (k, v) hm
  obtain rfl := Option.some.inj (hf.symm.trans hs)
  exact ⟨hp, ha⟩

/-- Every reference stands for a node of which something holds. -/
theorem gives_conversionOf {P : Node → Prop} {c : Converter} (hb : Node.IsBuilding P)
    (h : AreSchemas (IsReadableFor P) c.definitions) (ref : Ref) :
    (c.conversionOf ref).Gives P := by
  obtain ⟨entries, he, -⟩ := h.mapping
  obtain ⟨found, hfound⟩ := Source.exists_definition? he ref.name
  refine (Traced.gives_liftM hfound rfl).bind ?_
  rintro _ rfl
  cases found with
  | none => exact Traced.gives_pure hb.unknown
  | some schema =>
    obtain ⟨hs, ha⟩ := h.of_definition? hfound
    exact Source.gives_convert hb he ha hs rfl

/-- Every reference stands for a node. -/
theorem exists_conversionOf {c : Converter} (h : AreSchemas IsReadable c.definitions) (ref : Ref) :
    ∃ node, (c.conversionOf ref).outcome = .ok node := by
  have hb : Node.IsBuilding fun _ => True := by constructor <;> intros <;> trivial
  have hr : AreSchemas (IsReadableFor fun _ => True) c.definitions :=
    h.mono fun _ hs => ⟨hs, trivial, fun _ _ _ _ => trivial⟩
  obtain ⟨node, hnode, -⟩ := hr.gives_conversionOf hb ref
  exact ⟨node, hnode⟩

end AreSchemas

end ZodSchemas
