import ZodSchemas.Proofs.Conversion.Readable
import ZodSchemas.Proofs.Declaration.Agreement
import ZodSchemas.Proofs.Declaration.Placement
import ZodSchemas.Proofs.Value.Expressible

/-!
# Generation succeeds

A schema that can be read, and whose listed values and lengths can be written,
becomes a node that has an expression: its checks are those that expressions
know, its properties are named by texts, and its literals can be written. So
every step of the way to the code of a document ends with a value: each body is
found and rendered, and each name of the order is registered.
-/

namespace ZodSchemas

/-- A check that expressions know, with a bound that can be written, if it has one. -/
def Check.IsExpressible (check : Check) : Prop :=
  check.kind = .date ∨
    (check.kind = .min ∨ check.kind = .max) ∧ ∃ t, check.bound.plain = .ok t

/-- A node that has an expression. -/
inductive Node.IsExpressible : Node → Prop where
  /-- Texts with checks that expressions know. -/
  | string {checks : List Check} (known : ∀ check ∈ checks, check.IsExpressible) :
      IsExpressible (.string checks)
  /-- Numbers. -/
  | number : IsExpressible .number
  /-- Truth values. -/
  | boolean : IsExpressible .boolean
  /-- Objects whose properties have texts as keys. -/
  | object {properties : Entries Node} {required : List Key}
      (texts : ∀ e ∈ properties, ∃ t, e.1 = .text t) (inner : ∀ e ∈ properties, IsExpressible e.2) :
      IsExpressible (.object properties required)
  /-- Lists. -/
  | array {element : Node} (inner : IsExpressible element) : IsExpressible (.array element)
  /-- Unions. -/
  | union {options : List Node} (inner : ∀ option ∈ options, IsExpressible option) :
      IsExpressible (.union options)
  /-- Values that have a literal. -/
  | enum {values : List Value} (literals : ∀ v ∈ values, v.IsExpressible) :
      IsExpressible (.enum values)
  /-- A value that has a literal. -/
  | literal {v : Value} (literal : v.IsExpressible) : IsExpressible (.literal v)
  /-- Null or something. -/
  | nullable {inner : Node} (inside : IsExpressible inner) : IsExpressible (.nullable inner)
  /-- Nothing or something. -/
  | optional {inner : Node} (inside : IsExpressible inner) : IsExpressible (.optional inner)
  /-- References to texts. -/
  | lazy (name : Text) (origin : Nat) : IsExpressible (.lazy ⟨.text name, origin⟩)
  /-- Nothing. -/
  | never : IsExpressible .never
  /-- Anything. -/
  | unknown : IsExpressible .unknown

/-- Nodes that have an expression are built from such nodes. -/
theorem isBuilding_isExpressible : Node.IsBuilding Node.IsExpressible :=
  ⟨fun h => .object (fun e he => (h e he).1) fun e he => (h e he).2, .array, .union, .nullable,
    .optional, .lazy, .number, .boolean, .never, .unknown⟩

section Schemas

variable {schema : Entries Value}

/-- The listed values of a schema have a literal, and its lengths can be written. -/
structure HasLiterals (schema : Entries Value) : Prop where
  /-- The values that a text is one of have a literal. -/
  choice : ∀ v values, Entries.find? "enum" schema = some v → v.shape = .list values →
    ∀ w ∈ values, w.IsExpressible
  /-- Lengths can be written, whatever they are. -/
  lengths : ∀ keyword ∈ lengthKeywords, ∀ v, Entries.find? keyword schema = some v →
    ∃ t, v.plain = .ok t

/-- Expressions know the checks of a schema. -/
theorem HasLiterals.isExpressible_of_mem (h : HasLiterals schema) :
    ∀ check ∈ stringChecks schema, check.IsExpressible := by
  intro check hc
  simp only [stringChecks, List.mem_append] at hc
  rcases hc with (hc | hc) | hc
  · cases hv : Entries.find? "minLength" schema with
    | none => simp [hv] at hc
    | some v =>
      obtain rfl : check = ⟨.min, v⟩ := by simpa [hv] using hc
      exact .inr ⟨.inl rfl, h.lengths "minLength" (by simp [lengthKeywords]) v hv⟩
  · cases hv : Entries.find? "maxLength" schema with
    | none => simp [hv] at hc
    | some v =>
      obtain rfl : check = ⟨.max, v⟩ := by simpa [hv] using hc
      exact .inr ⟨.inr rfl, h.lengths "maxLength" (by simp [lengthKeywords]) v hv⟩
  · split at hc
    · obtain rfl : check = ⟨.date, .null⟩ := by simpa using hc
      exact .inl rfl
    · simp at hc

/-- What a schema needs no schema inside for has an expression. -/
theorem HasLiterals.isReadableFor (h : HasLiterals schema) (hr : IsReadable schema) :
    IsReadableFor Node.IsExpressible schema where
  readable := hr
  string := .string h.isExpressible_of_mem
  choice v values hv hs := by
    have hw := h.choice v values hv hs
    unfold Node.ofValues
    split
    · exact .literal (hw _ (by simp))
    · exact .enum hw

end Schemas

namespace Traced

variable {ω ε δ α : Type} {P : α → Prop}

/-- A computation with another kind of error ends with the same values. -/
theorem Gives.mapError {x : Traced ω ε α} (h : x.Gives P) (f : ε → δ) : (x.mapError f).Gives P := by
  obtain ⟨a, hx, ha⟩ := h
  exact ⟨a, mapError_eq_ok.mpr hx, ha⟩

end Traced

namespace Context

variable {c : Context}

/-- A context in which every text names a declaration and every reference stands for a node that has
an expression. -/
structure IsReady (c : Context) : Prop where
  /-- A text has an identifier. -/
  identifier : ∀ t : Text, ∃ own, c.settings.identifier (.text t) = .ok own
  /-- A reference stands for such a node. -/
  body : ∀ ref, ∃ body, c.registry.body ref = .ok body ∧ body.IsExpressible

/-- A text that is there is written. -/
theorem gives_written {x : Except Fault Text} {P : Text → Prop} (h : ∃ t, x = .ok t ∧ P t) :
    (written x).Gives P := by
  obtain ⟨t, hx, hp⟩ := h
  exact Traced.Gives.mapError ⟨t, hx, hp⟩ _

/-- The use of a declaration is written. -/
theorem IsReady.gives_use (h : c.IsReady) (t : Text) : (c.use (.text t)).Gives fun _ => True := by
  obtain ⟨own, hi⟩ := h.identifier t
  have hidentifier : (c.identifier (.text t)).Gives fun _ => True :=
    Traced.Gives.mapError ⟨own, hi, trivial⟩ _
  exact hidentifier.bind fun _ _ => Traced.gives_pure trivial

/-- The path of a part of what has a text as its path is a text. -/
theorem gives_subpath (t step : Text) :
    (subpath (.text t) step).Gives fun path => ∃ t, path = .text t :=
  (gives_written (P := fun _ => True) ⟨t, rfl, trivial⟩).bind fun _ _ => Traced.gives_pure ⟨_, rfl⟩

/-- The literal of a value that has one is written. -/
theorem gives_literal {v : Value} (h : v.IsExpressible) : (literal v).Gives fun _ => True := by
  obtain ⟨t, ht⟩ := Json.exists_write h
  exact gives_written ⟨t, ht, trivial⟩

/-- The literals of values that have one are written. -/
theorem gives_literals {values : List Value} (h : ∀ v ∈ values, v.IsExpressible) :
    (literals values).Gives fun _ => True := by
  induction values with
  | nil => exact Traced.gives_pure trivial
  | cons v rest ih =>
    obtain ⟨hv, hrest⟩ := List.forall_mem_cons.mp h
    exact (gives_literal hv).bind fun _ _ => (ih hrest).bind fun _ _ => Traced.gives_pure trivial

/-- The call of a check that expressions know is written. -/
theorem gives_checkCall (path : Key) {check : Check} (h : check.IsExpressible) :
    (checkCall path check).Gives fun _ => True := by
  unfold checkCall
  rcases h with hk | ⟨hk | hk, t, ht⟩
  · rw [hk]
    exact Traced.gives_pure trivial
  all_goals
    rw [hk]
    exact (gives_written ⟨t, ht, trivial⟩).bind fun _ (_ : True) => Traced.gives_pure trivial

/-- The calls of checks that expressions know are written. -/
theorem gives_checkCalls (path : Key) {checks : List Check}
    (h : ∀ check ∈ checks, check.IsExpressible) : (checkCalls path checks).Gives fun _ => True := by
  induction checks with
  | nil => exact Traced.gives_pure trivial
  | cons check rest ih =>
    obtain ⟨hc, hrest⟩ := List.forall_mem_cons.mp h
    exact (gives_checkCall path hc).bind fun _ _ => (ih hrest).bind fun _ _ =>
      Traced.gives_pure trivial

/-- It is known whether an option is an object, and an object has texts as keys. -/
theorem IsReady.gives_optionProperties (h : c.IsReady) {option : Node} (ho : option.IsExpressible) :
    (c.optionProperties option).Gives fun found =>
      ∀ properties ∈ found, ∀ e ∈ properties, ∃ t, e.1 = Key.text t := by
  have none : (pure none : Rendering (Option (Entries Node))).Gives fun found =>
      ∀ properties ∈ found, ∀ e ∈ properties, ∃ t, e.1 = Key.text t := Traced.gives_pure (by simp)
  cases ho with
  | lazy name origin =>
    unfold optionProperties
    dsimp only
    split
    · obtain ⟨body, hb, he⟩ := h.body ⟨.text name, origin⟩
      have hresolve : (c.registry.resolve ⟨.text name, origin⟩).outcome = .ok body :=
        Registry.resolve_eq_ok.mpr hb
      refine (Traced.Gives.mapError ⟨body, hresolve, he⟩ _).bind fun node hn => ?_
      cases hn with
      | object texts _ => exact Traced.gives_pure (by simpa using texts)
      | _ => exact none
    · exact none
  | object texts _ => exact Traced.gives_pure (by simpa using texts)
  | _ => exact none

/-- A tag stands under the key of a property. -/
theorem exists_of_mem_tags {properties : Entries Node} {tag : Key × Value}
    (h : tag ∈ tags properties) : ∃ e ∈ properties, e.1 = tag.1 := by
  obtain ⟨⟨name, node⟩, hm, hv⟩ := List.mem_filterMap.mp h
  obtain ⟨v, -, rfl⟩ := Option.map_eq_some_iff.mp hv
  exact ⟨_, hm, rfl⟩

/-- The property that tells options apart is a text, if there is one. -/
theorem IsReady.gives_discriminatorFrom (h : c.IsReady) {options : List Node}
    (ho : ∀ option ∈ options, option.IsExpressible) {key : Option Key}
    (hk : ∀ k ∈ key, ∃ t, k = Key.text t) (seen : List Value) :
    (c.discriminatorFrom key seen options).Gives fun found => ∀ k ∈ found, ∃ t, k = Key.text t := by
  have none : (pure none : Rendering (Option Key)).Gives fun found =>
      ∀ k ∈ found, ∃ t, k = Key.text t := Traced.gives_pure (by simp)
  induction options generalizing key seen with
  | nil => exact Traced.gives_pure hk
  | cons option rest ih =>
    obtain ⟨hfirst, hrest⟩ := List.forall_mem_cons.mp ho
    refine (h.gives_optionProperties hfirst).bind fun found hfound => ?_
    cases found with
    | none => exact none
    | some properties =>
      dsimp only
      split
      · next tagKey tagValue htags =>
        split
        · split
          · exact none
          · refine ih hrest (fun k hkey => ?_) _
            -- The key is the one before, or that of a property of the option.
            obtain rfl : key.getD tagKey = k := by simpa using hkey
            cases key with
            | some first => exact hk first rfl
            | none =>
              obtain ⟨e, hm, rfl⟩ := exists_of_mem_tags (htags ▸ List.mem_singleton_self _)
              exact hfound properties rfl e hm
        · exact none
      · exact none

/-- The term of a union is written. -/
theorem IsReady.gives_union (h : c.IsReady) {options : List Node}
    (ho : ∀ option ∈ options, option.IsExpressible) (parts : List Term) :
    (c.discriminator options >>= fun key => unionTerm key parts).Gives fun _ => True := by
  have hkey : (c.discriminator options).Gives fun found => ∀ k ∈ found, ∃ t, k = Key.text t := by
    unfold discriminator
    split
    · exact Traced.gives_pure (by simp)
    · exact h.gives_discriminatorFrom ho (by simp) []
  refine hkey.bind fun found hfound => ?_
  cases found with
  | none => exact Traced.gives_pure trivial
  | some key =>
    obtain ⟨t, rfl⟩ := hfound key rfl
    have hliteral : (Value.ofKey (.text t)).IsExpressible := .atom rfl ⟨_, rfl⟩
    exact (gives_literal hliteral).bind fun _ _ => Traced.gives_pure trivial

mutual

/-- A node that has an expression has a term. -/
theorem IsReady.gives_term (h : c.IsReady) : ∀ (node : Node) (t : Text), node.IsExpressible →
    (c.term node (.text t)).Gives fun _ => True
  | .lazy ref, t, hn => by
    cases hn with
    | lazy name origin =>
      rw [term]
      exact (h.gives_use name).bind fun _ _ => Traced.gives_pure trivial
  | .object properties required, t, hn => by
    cases hn with
    | object texts inner =>
      rw [term]
      exact (h.gives_propertyTerms properties t texts inner).bind fun _ _ =>
        Traced.gives_pure trivial
  | .array element, t, hn => by
    cases hn with
    | array inner =>
      rw [term]
      refine (gives_subpath t "element").bind ?_
      rintro _ ⟨place, rfl⟩
      exact (h.gives_term element place inner).bind fun _ _ => Traced.gives_pure trivial
  | .union options, t, hn => by
    cases hn with
    | union inner =>
      rw [term]
      exact (h.gives_optionTerms options 0 t inner).bind fun parts _ => h.gives_union inner parts
  | .string checks, t, hn => by
    cases hn with
    | string known =>
      rw [term]
      exact (gives_checkCalls (.text t) known).bind fun _ _ => Traced.gives_pure trivial
  | .literal v, t, hn => by
    cases hn with
    | literal hv =>
      rw [term]
      exact (gives_literal hv).bind fun _ _ => Traced.gives_pure trivial
  | .enum [v], t, hn => by
    cases hn with
    | enum hv =>
      rw [term]
      exact (gives_literal (hv v (by simp))).bind fun _ _ => Traced.gives_pure trivial
  | .enum [], t, hn => (gives_literals (by simp)).bind fun _ _ => Traced.gives_pure trivial
  | .enum (v :: w :: values), t, hn => by
    cases hn with
    | enum hv => exact (gives_literals hv).bind fun _ _ => Traced.gives_pure trivial
  | .nullable inner, t, hn => by
    cases hn with
    | nullable hi =>
      rw [term]
      exact (h.gives_term inner t hi).bind fun _ _ => Traced.gives_pure trivial
  | .optional inner, t, hn => by
    cases hn with
    | optional hi =>
      rw [term]
      exact (h.gives_term inner t hi).bind fun _ _ => Traced.gives_pure trivial
  | .plain, t, hn => nomatch hn
  | .number, t, hn | .boolean, t, hn | .never, t, hn | .unknown, t, hn => by
    rw [term]
    exact Traced.gives_pure trivial

/-- Properties whose nodes have expressions have terms. -/
theorem IsReady.gives_propertyTerms (h : c.IsReady) : ∀ (properties : List (Key × Node)) (t : Text),
    (∀ e ∈ properties, ∃ t, e.1 = .text t) → (∀ e ∈ properties, e.2.IsExpressible) →
    (c.propertyTerms properties (.text t)).Gives fun _ => True
  | [], t, _, _ => by
    rw [propertyTerms]
    exact Traced.gives_pure trivial
  | (key, node) :: rest, t, ht, hn => by
    obtain ⟨⟨name, hname⟩, hrest⟩ := List.forall_mem_cons.mp ht
    obtain rfl : key = .text name := hname
    obtain ⟨hnode, hnodes⟩ := List.forall_mem_cons.mp hn
    rw [propertyTerms]
    refine (gives_written ⟨_, rfl, trivial⟩).bind fun _ (_ : True) => ?_
    refine (gives_written ⟨_, rfl, trivial⟩).bind fun step (_ : True) => ?_
    refine (gives_subpath t step).bind ?_
    rintro _ ⟨place, rfl⟩
    refine (h.gives_term node place hnode).bind fun _ _ => ?_
    exact (h.gives_propertyTerms rest t hrest hnodes).bind fun _ _ => Traced.gives_pure trivial

/-- Options that have expressions have terms. -/
theorem IsReady.gives_optionTerms (h : c.IsReady) :
    ∀ (options : List Node) (index : Nat) (t : Text), (∀ option ∈ options, option.IsExpressible) →
    (c.optionTerms index options (.text t)).Gives fun _ => True
  | [], index, t, _ => by
    rw [optionTerms]
    exact Traced.gives_pure trivial
  | option :: rest, index, t, ho => by
    obtain ⟨hfirst, hrest⟩ := List.forall_mem_cons.mp ho
    rw [optionTerms]
    refine (gives_subpath t _).bind ?_
    rintro _ ⟨place, rfl⟩
    refine (h.gives_term option place hfirst).bind fun _ _ => ?_
    exact (h.gives_optionTerms rest (index + 1) t hrest).bind fun _ _ => Traced.gives_pure trivial

end

end Context

namespace Registry

variable {registry : Registry} {settings : Settings}

/-- An entry whose name is a text is declared. -/
theorem gives_declare (h : ∀ progress, Context.IsReady ⟨registry, settings, progress⟩)
    (progress : Progress) (name : Text) (ref : Ref) :
    (registry.declare settings progress (.text name) (.lazy ref)).Gives fun _ => True := by
  obtain ⟨body, hb, hexpressible⟩ := (h progress).body ref
  have hbody : (registry.bodyOf (.lazy ref)).outcome = .ok body := resolve_eq_ok.mpr hb
  have hready := h (progress.start (.text name))
  obtain ⟨own, hi⟩ := hready.identifier name
  have hidentifier : (Context.identifier ⟨registry, settings, progress.start (.text name)⟩
      (.text name)).Gives fun _ => True := Traced.Gives.mapError ⟨own, hi, trivial⟩ _
  refine (Traced.Gives.mapError ⟨body, hbody, hexpressible⟩ _).bind fun node hn => ?_
  exact (hready.gives_term node name hn).bind fun _ _ => hidentifier.bind fun _ _ =>
    Traced.gives_pure trivial

/-- An order of registered texts is declared. -/
theorem gives_declarations (h : ∀ progress, Context.IsReady ⟨registry, settings, progress⟩)
    {order : List Key} (ho : ∀ name ∈ order, ∃ t ref, name = .text t ∧
      Entries.find? name registry.entries = some (.lazy ref)) (progress : Progress)
    (resolved : List Ref) :
    (registry.declarations settings order progress resolved).Gives fun _ => True := by
  induction order generalizing progress resolved with
  | nil => exact Traced.gives_pure trivial
  | cons name rest ih =>
    obtain ⟨⟨t, ref, rfl, hf⟩, hrest⟩ := List.forall_mem_cons.mp ho
    have hentry : registry.entryAfter? resolved (.text t) = some (.lazy ref) := by
      simp only [entryAfter?, hf]
    rw [declarations]
    simp only [hentry]
    split
    · exact ih hrest _ _
    · exact (gives_declare h progress t ref).bind fun _ _ => (ih hrest _ _).bind fun _ _ =>
        Traced.gives_pure trivial

end Registry

/-- Where all definitions are named by texts, all registered names are texts. -/
theorem exists_text_of_mem_entries {document : Value} {c : Converter} {entries : Entries Value}
    (hc : convertDocument document = .ok c) (he : c.definitions.entries? = some entries)
    (ht : ∀ e ∈ entries, ∃ t, e.1 = Key.text t) {name : Key} {ref : Ref}
    (h : (name, ref) ∈ c.entries) : ∃ t, name = .text t := by
  rw [Converter.entries_of_convertDocument hc] at h
  refine (Entries.forall_mem_merge (K := fun key => ∃ t, key = .text t) (P := fun _ => True)
    (by simp) (fun e hm => ⟨?_, trivial⟩) (name, ref) h).1
  obtain ⟨name, hn, rfl⟩ := List.mem_map.mp hm
  obtain ⟨e, he, rfl⟩ := List.mem_map.mp ((Converter.definedNames_sublist he).subset hn)
  exact ht e he

/-- Where the definitions of a document can be read, none is inside itself, and their listed values
and lengths can be written, there is code for the document: with texts as the prefix and the module,
and settings that can still name declarations. -/
theorem generation_succeeds {document definitions : Value} {settings : Settings}
    {front module : Text} (hdoc : definitionsOf document = .ok definitions)
    (hd : AreSchemas (fun schema => IsReadable schema ∧ HasLiterals schema) definitions)
    (hfront : settings.namePrefix = .text front) (hmodule : settings.module = .text module)
    (hidentifier : Operation.identifier ∉ settings.replaced) :
    ∃ text, (generate document settings).1 = .ok text := by
  obtain ⟨entries, he, hentries⟩ := hd.mapping
  obtain ⟨c, hc, rfl⟩ := Converter.exists_convertDocument hdoc he
  have hbodies : ∀ ref, ∃ body, c.registry.body ref = .ok body ∧ body.IsExpressible :=
    (hd.mono fun schema h => h.2.isReadableFor h.1).gives_conversionOf isBuilding_isExpressible
  have hready : ∀ progress, Context.IsReady ⟨c.registry, settings, progress⟩ := by
    refine fun progress => ⟨fun t => ⟨front ++ t ++ "Schema", ?_⟩, hbodies⟩
    simp [Settings.identifier, hidentifier, hfront, Value.plain, Key.plain, bind, Except.bind]
  have hresolved : ∀ e ∈ c.registry.entries,
      ∃ body, (c.registry.bodyOf e.2).outcome = .ok body := by
    intro e hm
    obtain ⟨⟨name, ref⟩, -, rfl⟩ := List.mem_map.mp hm
    obtain ⟨body, hb, -⟩ := hbodies ref
    exact ⟨body, Registry.resolve_eq_ok.mpr hb⟩
  obtain ⟨map, hmap⟩ := Registry.exists_dependencies_iff.mpr hresolved
  have horder : ∀ name ∈ sequence map, ∃ t ref, name = Key.text t ∧
      Entries.find? name c.registry.entries = some (.lazy ref) := by
    intro name hn
    obtain ⟨ref, hin, hf⟩ := Registry.exists_entry_of_mem_sequence hc hmap hn
    obtain ⟨t, rfl⟩ := exists_text_of_mem_entries hc he (fun e hm => (hentries e hm).1) hin
    exact ⟨t, ref, rfl, hf⟩
  obtain ⟨ds, hds, -⟩ := Registry.gives_declarations hready horder {}
    (dependenciesOf c.registry).events
  have hplain : settings.module.plain = .ok module := by rw [hmodule]; rfl
  have hfile : (generateFile document settings).1 = .ok ⟨module, ds⟩ :=
    (generateFile_eq_ok hc).mpr ⟨map, hmap, hds, hplain⟩
  exact ⟨_, generate_eq_ok.mpr ⟨_, hfile, rfl⟩⟩

/-- A schema that refers to itself alone. -/
def selfSchema : Entries Value := [("$ref", "#/components/schemas/Loop")]

/-- A schema of texts with a list as their least length and with a number among its values. -/
def sizeSchema : Entries Value :=
  [("type", "string"), ("minLength", .list []), ("enum", .list ["S", .int 1])]

/-- The definitions of both. -/
def oddDefinitions : Entries Value := [("Loop", .map selfSchema), ("Size", .map sizeSchema)]

/-- The schema that refers to itself can be read, and nothing is listed in it. -/
theorem isReadable_selfSchema : IsReadable selfSchema ∧ HasLiterals selfSchema := by
  have hnone : ∀ keyword ∈ (["enum", "required"] : List Text) ++ lengthKeywords ++ nestingKeywords,
      Entries.find? (.text keyword) selfSchema = none := by decide
  constructor <;> constructor
  case left.reference =>
    intro v hv
    obtain rfl := Option.some.inj hv
    exact ⟨_, rfl⟩
  case left.members =>
    exact fun keyword hk => forall_of_find?_eq_none (hnone _ (by simp [nestingKeywords, hk]))
  case right.choice =>
    exact fun v values hv => absurd hv (by simp [hnone "enum" (by simp)])
  case right.lengths =>
    exact fun keyword hk => forall_of_find?_eq_none (hnone _ (by simp [hk]))
  all_goals exact forall_of_find?_eq_none (hnone _ (by decide))

/-- The schema of texts can be read, and what is listed in it and its length can be written. -/
theorem isReadable_sizeSchema : IsReadable sizeSchema ∧ HasLiterals sizeSchema := by
  have hnone : ∀ keyword ∈ (["$ref", "required", "maxLength"] : List Text) ++ nestingKeywords,
      Entries.find? (.text keyword) sizeSchema = none := by decide
  constructor <;> constructor
  case left.members =>
    exact fun keyword hk => forall_of_find?_eq_none (hnone _ (by simp [nestingKeywords, hk]))
  case left.choice =>
    intro v hv
    obtain rfl := Option.some.inj hv
    exact ⟨_, rfl⟩
  case right.choice =>
    intro v values hv hs
    obtain rfl := Option.some.inj hv
    obtain rfl := Shape.list.inj hs
    exact List.forall_mem_cons.mpr ⟨.atom rfl ⟨_, rfl⟩,
      List.forall_mem_singleton.mpr (.atom rfl ⟨_, rfl⟩)⟩
  case right.lengths =>
    refine List.forall_mem_cons.mpr ⟨fun v hv => ?_, List.forall_mem_singleton.mpr ?_⟩
    · obtain rfl := Option.some.inj hv
      exact ⟨_, rfl⟩
    · exact forall_of_find?_eq_none (hnone _ (by decide))
  all_goals exact forall_of_find?_eq_none (hnone _ (by decide))

/-- The definitions can be read, and what they list can be written. -/
theorem areSchemas_odd :
    AreSchemas (fun schema => IsReadable schema ∧ HasLiterals schema) (.map oddDefinitions) :=
  ⟨_, rfl, List.forall_mem_cons.mpr
    ⟨⟨⟨_, rfl⟩, _, rfl, throughout_of_flat isReadable_selfSchema (by decide)⟩,
      List.forall_mem_singleton.mpr
        ⟨⟨_, rfl⟩, _, rfl, throughout_of_flat isReadable_sizeSchema (by decide)⟩⟩⟩

/-- There is code for the odd definitions. -/
theorem generation_succeeds_odd :
    definitionsOf (documentWith oddDefinitions) = .ok (.map oddDefinitions) ∧
      AreSchemas (fun schema => IsReadable schema ∧ HasLiterals schema) (.map oddDefinitions) ∧
      ({} : Settings).namePrefix = .text [] ∧ ({} : Settings).module = .text "zod" ∧
      Operation.identifier ∉ ({} : Settings).replaced ∧
      ∃ text, (generate (documentWith oddDefinitions) {}).1 = .ok text :=
  ⟨rfl, areSchemas_odd, rfl, rfl, by decide,
    generation_succeeds rfl areSchemas_odd rfl rfl (by decide)⟩

/-- An entry that names an operation replaces it by a value, and no declaration can be named. -/
theorem generation_fails_replaced : ∃ settings,
    Settings.ofValue (.map [("schema_identifier", .int 1)]) = .ok settings ∧
      settings.namePrefix = .text [] ∧ settings.module = .text "zod" ∧
      (generate (documentWith [("A", .map [])]) settings).1 = .error (.fault .noOperation) :=
  ⟨_, rfl, rfl, rfl, rfl⟩

end ZodSchemas
