import Mathlib.Data.List.Forall2
import ZodSchemas.Declaration.Expression
import ZodSchemas.Proofs.Conversion.Known
import ZodSchemas.Proofs.Validation.Recursion
import ZodSchemas.Proofs.Validation.Verdict
import ZodSchemas.Proofs.Value.Json

/-!
# Unions that a key tells apart

A key tells the options of a union apart when each of them is an object whose
only literal stands under that key, and no two of these literals match. So a
value holds the tag of one option at most, and no other option accepts it:
taking the options in order and taking the one with the right tag come to the
same.
-/

namespace ZodSchemas

namespace Registry

/-- The properties of the object that an option is, or that it refers to. -/
inductive StandsFor (registry : Registry) : Node → Entries Node → Prop where
  /-- An object. -/
  | object {properties : Entries Node} {required : List Key} :
      StandsFor registry (.object properties required) properties
  /-- A reference to an object. -/
  | lazy {ref : Ref} {properties : Entries Node} {required : List Key}
      (found : registry.body ref = .ok (.object properties required)) :
      StandsFor registry (.lazy ref) properties

/-- The only literal of an option stands under a key. -/
def HasTag (registry : Registry) (key : Key) (option : Node) (allowed : Value) : Prop :=
  ∃ properties tag, registry.StandsFor option properties ∧
    Context.tags properties = [(tag, allowed)] ∧ key.same tag = true

/-- The only literal of an option stands under a key and matches a value. -/
def MatchesTag (registry : Registry) (key : Key) (option : Node) (w : Value) : Prop :=
  ∃ allowed, registry.HasTag key option allowed ∧ allowed.isMatch w = true

/-- Parsing a value with a node succeeds and leaves some data. -/
def ParsesTo (registry : Registry) (node : Node) (v : Value) (data : Option Value) : Prop :=
  (parse registry node (some v)).outcome = .ok (.ok data)

variable {registry : Registry} {key : Key} {option : Node}

/-- An option stands for one object. -/
theorem StandsFor.unique {properties others : Entries Node}
    (h : registry.StandsFor option properties) (ho : registry.StandsFor option others) :
    properties = others := by
  cases h with
  | object =>
    cases ho
    rfl
  | lazy hb =>
    cases ho with
    | lazy hb' =>
      rw [hb] at hb'
      exact (Node.object.inj (Except.ok.inj hb')).1

/-- An option has one tag. -/
theorem HasTag.unique {allowed other : Value} (h : registry.HasTag key option allowed)
    (ho : registry.HasTag key option other) : allowed = other := by
  obtain ⟨properties, tag, hs, ht, -⟩ := h
  obtain ⟨others, tag', hs', ht', -⟩ := ho
  obtain rfl := hs.unique hs'
  rw [ht] at ht'
  exact (Prod.mk.inj (List.cons.inj ht').1).2

/-- The tag of an option is the literal of one of its properties. -/
theorem HasTag.exists_property {allowed : Value} (h : registry.HasTag key option allowed) :
    ∃ properties tag node, registry.StandsFor option properties ∧ (tag, node) ∈ properties ∧
      Context.literalValue? node = some allowed ∧ key.same tag = true := by
  obtain ⟨properties, tag, hs, ht, hk⟩ := h
  have hm : (tag, allowed) ∈ Context.tags properties := by simp [ht]
  obtain ⟨⟨k, node⟩, he, hv⟩ := List.mem_filterMap.mp hm
  obtain ⟨v, hl, heq⟩ := Option.map_eq_some_iff.mp hv
  obtain ⟨rfl, rfl⟩ := Prod.mk.inj heq
  exact ⟨properties, k, node, hs, he, hl, hk⟩

end Registry

namespace Context

variable {c : Context}

/-- What an option of a union counts as is what it stands for. -/
theorem standsFor_of_optionProperties {option : Node} {properties : Entries Node}
    (h : (c.optionProperties option).outcome = .ok (some properties)) :
    c.registry.StandsFor option properties := by
  unfold optionProperties at h
  split at h
  · next ref =>
    split at h
    · obtain ⟨body, hb, h⟩ := Traced.bind_eq_ok.mp h
      have hb := Registry.resolve_eq_ok.mp (Traced.mapError_eq_ok.mp hb)
      split at h
      · obtain rfl := Option.some.inj (Traced.pure_eq_ok.mp h)
        exact .lazy hb
      · simp at h
    · simp at h
  · obtain rfl := Option.some.inj (Traced.pure_eq_ok.mp h)
    exact .object
  · simp at h

/-- A key is found when the next option is an object with one tag, whose key is the one so far and
whose value matches none of those before, and the key is found behind it. -/
theorem discriminatorFrom_cons_eq_some {key : Option Key} {seen : List Value} {option : Node}
    {rest : List Node} {found : Key} :
    (c.discriminatorFrom key seen (option :: rest)).outcome = .ok (some found) ↔
      ∃ properties tag allowed, (c.optionProperties option).outcome = .ok (some properties) ∧
        tags properties = [(tag, allowed)] ∧ (∀ k ∈ key, k.same tag = true) ∧
        (∀ v ∈ seen, allowed.isMatch v = false) ∧
        (c.discriminatorFrom (some (key.getD tag)) (seen ++ [allowed]) rest).outcome =
          .ok (some found) := by
  have key_iff : ∀ tag, ((key.map fun k => k.same tag).getD true = true) ↔
      ∀ k ∈ key, k.same tag = true := by
    intro tag
    cases key <;> simp
  rw [discriminatorFrom, Traced.bind_eq_ok]
  constructor
  · rintro ⟨answer, hp, h⟩
    split at h
    · simp at h
    · next properties =>
      split at h
      · next tag allowed ht =>
        split at h
        · next hk =>
          split at h
          · simp at h
          · next hn =>
            refine ⟨properties, tag, allowed, hp, ht, (key_iff tag).mp hk, fun v hv => ?_, h⟩
            simpa using fun hm => hn (List.any_eq_true.mpr ⟨v, hv, hm⟩)
        · simp at h
      · simp at h
  · rintro ⟨properties, tag, allowed, hp, ht, hk, hn, h⟩
    have hseen : (seen.any fun v => allowed.isMatch v) = false := by
      simpa [List.any_eq_false] using hn
    refine ⟨some properties, hp, ?_⟩
    simpa [ht, (key_iff tag).mpr hk, hseen] using h

/-- The options behind some others have literals under the key that is found, which match neither
each other nor those in front. -/
theorem hasTag_of_discriminatorFrom {key : Option Key} {seen : List Value} {options : List Node}
    {found : Key} (h : (c.discriminatorFrom key seen options).outcome = .ok (some found)) :
    (∀ k ∈ key, k = found) ∧ ∃ values, List.Forall₂ (c.registry.HasTag found) options values ∧
      values.Pairwise (fun a b => b.isMatch a = false) ∧
      ∀ s ∈ seen, ∀ a ∈ values, a.isMatch s = false := by
  induction options generalizing key seen with
  | nil =>
    obtain rfl := Traced.pure_eq_ok.mp h
    exact ⟨by simp, [], .nil, .nil, by simp⟩
  | cons option rest ih =>
    obtain ⟨properties, tag, allowed, hp, ht, hk, hn, h⟩ := discriminatorFrom_cons_eq_some.mp h
    obtain ⟨hfound, values, htagged, hapart, hseen⟩ := ih h
    obtain ⟨hseen, hlast⟩ := List.forall_mem_append.mp hseen
    have hsame : found.same tag = true := by
      rw [← hfound _ rfl]
      cases key with
      | none => exact Key.same_self tag
      | some k => exact hk k rfl
    refine ⟨fun k hm => ?_, allowed :: values, .cons ?_ htagged, .cons ?_ hapart, ?_⟩
    · obtain rfl := Option.mem_def.mp hm
      exact hfound k rfl
    · exact ⟨properties, tag, standsFor_of_optionProperties hp, ht, hsame⟩
    · exact List.forall_mem_singleton.mp hlast
    · exact fun s hs => List.forall_mem_cons.mpr ⟨hn s hs, hseen s hs⟩

/-- The options of a union that a key tells apart have literals under that key, which do not match
each other. -/
theorem hasTag_of_discriminator {options : List Node} {key : Key}
    (h : (c.discriminator options).outcome = .ok (some key)) :
    ∃ values, List.Forall₂ (c.registry.HasTag key) options values ∧
      values.Pairwise fun a b => b.isMatch a = false := by
  unfold discriminator at h
  split at h
  · simp at h
  · obtain ⟨-, values, htagged, hapart, -⟩ := hasTag_of_discriminatorFrom h
    exact ⟨values, htagged, hapart⟩

end Context

namespace Validation

variable {enter unwrap : Judge} {follow : Ref → Option Value → Path → Judging} {path : Path}

/-- A node that allows one value lets nothing pass but what matches it. -/
theorem isMatch_of_ruleOf {node : Node} {allowed : Value} {value data : Option Value}
    (hl : Context.literalValue? node = some allowed)
    (h : (ruleOf enter unwrap follow node value path).outcome = .ok ⟨data, []⟩) :
    ∃ w, value = some w ∧ allowed.isMatch w = true := by
  unfold Context.literalValue? at hl
  split at hl
  · obtain rfl := Option.some.inj hl
    cases value with
    | none => simp [ruleOf, Verdict.reject] at h
    | some w =>
      rw [ruleOf] at h
      split at h
      · next hm => exact ⟨w, rfl, hm⟩
      · exact absurd h rejectWith_ne_data
  · obtain rfl := Option.some.inj hl
    cases value with
    | none => simp [ruleOf, Verdict.reject] at h
    | some w =>
      rw [ruleOf] at h
      split at h
      · next hm => exact ⟨w, rfl, by simpa using hm⟩
      · exact absurd h rejectWith_ne_data
  · simp at hl

end Validation

namespace Registry

variable {registry : Registry} {key : Key} {option : Node} {v : Value}

/-- Parsing with an option that has a tag only succeeds for mappings with a matching value under
the key. -/
theorem HasTag.find?_of_parsesTo {allowed : Value} {data : Option Value} (hc : registry.IsClosed)
    (hv : v.isFinite = true) (ht : registry.HasTag key option allowed)
    (h : registry.ParsesTo option v data) :
    ∃ entries w, v.entries? = some entries ∧ Entries.find? key entries = some w ∧
      allowed.isMatch w = true := by
  obtain ⟨properties, tag, node, hs, hm, hl, hk⟩ := ht.exists_property
  have present : ∀ w ∈ some v, w.isFinite = true := by simpa using hv
  have object : ∀ required, (validateAt registry (.object properties required) (some v) []).outcome
      = .ok ⟨data, []⟩ → ∃ entries w, v.entries? = some entries ∧
        Entries.find? key entries = some w ∧ allowed.isMatch w = true := by
    intro required h
    have hr := (Validation.validateAt_eq_ok_iff hc present).mp h
    rw [Validation.rule, Validation.ruleOf] at hr
    cases he : v.entries? with
    | none => simp [he, Verdict.reject] at hr
    | some entries =>
      simp only [he] at hr
      obtain ⟨⟨parsed, issues⟩, hp, hr⟩ := Traced.bind_eq_ok.mp hr
      obtain ⟨-, rfl⟩ : _ ∧ issues = [] := by simpa using hr
      obtain ⟨path, own, ho⟩ := Validation.exists_of_properties_eq_ok hp _ hm
      have inside : ∀ w ∈ Entries.find? tag entries, w.isFinite = true := fun w hw =>
        Value.isFinite_of_mem_parts hv (Validation.mem_parts_of_find? he hw)
      obtain ⟨w, hw, hmatch⟩ :=
        Validation.isMatch_of_ruleOf hl ((Validation.validateAt_eq_ok_iff hc inside).mp ho)
      exact ⟨entries, w, rfl, (Entries.find?_congr hk entries).trans hw, hmatch⟩
  have h := parse_eq_data.mp h
  cases hs with
  | object => exact object _ h
  | lazy hb =>
    have hr := (Validation.validateAt_eq_ok_iff hc present).mp h
    obtain ⟨body, hbody, hr⟩ := Traced.bind_eq_ok.mp hr
    obtain rfl := Except.ok.inj (hb.symm.trans (Registry.resolve_eq_ok.mp hbody))
    exact object _ hr

/-- A union lets a value pass as an option does. -/
theorem exists_of_union_parsesTo {options : List Node} {data : Option Value}
    (hc : registry.IsClosed) (hv : v.isFinite = true)
    (h : registry.ParsesTo (.union options) v data) :
    ∃ option ∈ options, registry.ParsesTo option v data := by
  have hr := (Validation.validateAt_eq_ok_iff hc (by simpa using hv)).mp (parse_eq_data.mp h)
  rcases Validation.cases_of_firstVerdict hr with ⟨-, option, ho, hd⟩ | ⟨hi, -⟩
  · exact ⟨option, ho, parse_eq_data.mpr hd⟩
  · simp at hi

/-- A union on which validation ends lets a value pass when an option does, though not always as
that option does. -/
theorem exists_union_parsesTo {options : List Node} {data : Option Value} {verdict : Verdict}
    (hc : registry.IsClosed) (hv : v.isFinite = true)
    (he : (validate registry (.union options) (some v)).outcome = .ok verdict)
    (ho : option ∈ options) (h : registry.ParsesTo option v data) :
    ∃ first ∈ options, ∃ data, registry.ParsesTo (.union options) v data ∧
      registry.ParsesTo first v data := by
  have hr := (Validation.validateAt_eq_ok_iff hc (by simpa using hv)).mp he
  rcases Validation.cases_of_firstVerdict hr with ⟨hi, first, hf, hd⟩ | ⟨-, hn⟩
  · obtain ⟨data, issues⟩ := verdict
    obtain rfl : issues = [] := hi
    exact ⟨first, hf, data, parse_eq_data.mpr he, parse_eq_data.mpr hd⟩
  · exact absurd (parse_eq_data.mp h) (hn option ho data)

/-- One option of a union is the only one whose literal under a key matches a value. -/
structure IsOnlyMatch (registry : Registry) (key : Key) (options : List Node) (w : Value)
    (index : Nat) (option : Node) : Prop where
  /-- The option stands there. -/
  found : options[index]? = some option
  /-- Its literal matches. -/
  matched : registry.MatchesTag key option w
  /-- No other literal does. -/
  only : ∀ i other, options[i]? = some other → registry.MatchesTag key other w → i = index

/-- A key tells the options of a union apart for a value: the first option that lets the value pass
is the one whose literal the value has under the key. -/
structure TellsApart (registry : Registry) (key : Key) (options : List Node) (v : Value) :
    Prop where
  /-- Where validation ends, the union parses a value as the only option does whose literal matches
  what the value has under the key. -/
  parses : (∃ verdict, (validate registry (.union options) (some v)).outcome = .ok verdict) →
    ∀ data, registry.ParsesTo (.union options) v data ↔
      ∃ entries w index option, v.entries? = some entries ∧
        Entries.find? key entries = some w ∧ registry.IsOnlyMatch key options w index option ∧
        registry.ParsesTo option v data
  /-- No two options let the value pass. -/
  alone : ∀ (i j : Nat) (option other : Node) (data parsed : Option Value),
    options[i]? = some option → options[j]? = some other → registry.ParsesTo option v data →
      registry.ParsesTo other v parsed → i = j
  /-- An option that lets the value pass is the one that the value's tag selects. -/
  selects : ∀ (index : Nat) (option : Node) (data : Option Value),
    options[index]? = some option → registry.ParsesTo option v data →
      ∃ entries w, v.entries? = some entries ∧ Entries.find? key entries = some w ∧
        registry.IsOnlyMatch key options w index option

/-- Where literals do not match each other, a JSON value matches that of one option at most. -/
theorem index_unique_of_matchesTag {options : List Node} {values : List Value} {w : Value}
    (htagged : List.Forall₂ (registry.HasTag key) options values)
    (hapart : values.Pairwise fun a b => b.isMatch a = false)
    (ht : ∀ option ∈ options, ∀ allowed, registry.HasTag key option allowed → allowed.IsJson)
    (hw : w.IsJson) {i j : Nat} {option other : Node} (hi : options[i]? = some option)
    (hj : options[j]? = some other) (hmi : registry.MatchesTag key option w)
    (hmj : registry.MatchesTag key other w) : i = j := by
  have not_before : ∀ (i j : Nat) (option other : Node), options[i]? = some option →
      options[j]? = some other → registry.MatchesTag key option w →
      registry.MatchesTag key other w → ¬ i < j := by
    rintro i j option other hi hj ⟨a, ha, hma⟩ ⟨b, hb, hmb⟩ hlt
    obtain ⟨hli, rfl⟩ := List.getElem?_eq_some_iff.mp hi
    obtain ⟨hlj, rfl⟩ := List.getElem?_eq_some_iff.mp hj
    have hl := htagged.length_eq
    have hvi : registry.HasTag key options[i] values[i] := htagged.get hli (hl ▸ hli)
    have hvj : registry.HasTag key options[j] values[j] := htagged.get hlj (hl ▸ hlj)
    have hn := List.pairwise_iff_getElem.mp hapart i j (hl ▸ hli) (hl ▸ hlj) hlt
    obtain rfl := ha.unique hvi
    obtain rfl := hb.unique hvj
    have hm := Value.isMatch_of_isMatch hw (ht _ (List.getElem_mem hli) _ ha) hma hmb
    simp [hn] at hm
  have h₁ := not_before i j option other hi hj hmi hmj
  have h₂ := not_before j i other option hj hi hmj hmi
  omega

/-- A key that is found for the options of a union tells them apart for every JSON value, when the
literals under it are JSON values. -/
theorem tellsApart_of_discriminator {c : Context} {options : List Node}
    (hc : c.registry.IsClosed)
    (hk : (c.discriminator options).outcome = .ok (some key))
    (ht : ∀ option ∈ options, ∀ allowed, c.registry.HasTag key option allowed → allowed.IsJson)
    (hv : v.IsJson) : c.registry.TellsApart key options v := by
  obtain ⟨values, htagged, hapart⟩ := Context.hasTag_of_discriminator hk
  have tagged : ∀ option ∈ options, ∃ allowed, c.registry.HasTag key option allowed := by
    intro option ho
    obtain ⟨allowed, -, hr⟩ := exists_right_of_mem htagged ho
    exact ⟨allowed, hr⟩
  have selects : ∀ (index : Nat) (option : Node) (data : Option Value),
      options[index]? = some option → c.registry.ParsesTo option v data →
        ∃ entries w, v.entries? = some entries ∧ Entries.find? key entries = some w ∧
          c.registry.IsOnlyMatch key options w index option := by
    intro index option data hf hp
    obtain ⟨allowed, hr⟩ := tagged option (List.mem_of_getElem? hf)
    obtain ⟨entries, w, he, hw, hm⟩ := hr.find?_of_parsesTo hc hv.isFinite hp
    refine ⟨entries, w, he, hw, hf, ⟨allowed, hr, hm⟩, fun i other ho hmatch => ?_⟩
    exact index_unique_of_matchesTag htagged hapart ht (hv.of_find? he hw) ho hf hmatch
      ⟨allowed, hr, hm⟩
  have alone : ∀ (i j : Nat) (option other : Node) (data parsed : Option Value),
      options[i]? = some option → options[j]? = some other →
      c.registry.ParsesTo option v data → c.registry.ParsesTo other v parsed → i = j := by
    intro i j option other data parsed hi hj hp hq
    obtain ⟨entries, w, he, hw, honly⟩ := selects j other parsed hj hq
    obtain ⟨entries', w', he', hw', hother⟩ := selects i option data hi hp
    obtain rfl := Option.some.inj (he.symm.trans he')
    obtain rfl := Option.some.inj (hw.symm.trans hw')
    exact honly.only i option hi hother.matched
  refine ⟨fun ⟨verdict, hends⟩ data => ⟨fun hp => ?_, ?_⟩, alone, selects⟩
  · obtain ⟨option, ho, hd⟩ := exists_of_union_parsesTo hc hv.isFinite hp
    obtain ⟨index, hi⟩ := List.getElem?_of_mem ho
    obtain ⟨entries, w, he, hw, honly⟩ := selects index option data hi hd
    exact ⟨entries, w, index, option, he, hw, honly, hd⟩
  · rintro ⟨entries, w, index, option, -, -, honly, hd⟩
    obtain ⟨first, hf, parsed, hu, hp⟩ := exists_union_parsesTo hc hv.isFinite hends
      (List.mem_of_getElem? honly.found) hd
    obtain ⟨i, hi⟩ := List.getElem?_of_mem hf
    obtain rfl := alone i index first option parsed data hi honly.found hp hd
    obtain rfl := Option.some.inj (hi.symm.trans honly.found)
    obtain rfl : parsed = data := by
      have := hp.symm.trans hd
      simpa using this
    exact hu

end Registry

/-- Two objects that the literal under one key tells apart, one of them behind a reference. -/
def taggedOptions : List Node :=
  [.object [("kind", .literal "a"), ("size", .number)] ["kind", "size"], .lazy ⟨"B", 1⟩]

/-- A state in which the object behind the reference is declared. -/
def taggedContext : Context where
  registry := .ofEntries [] [("B", .object [("kind", .enum ["b"])] ["kind"])]
  settings := {}
  progress := { generated := ["B"] }

/-- A value with the literal of the second option. -/
def taggedValue : Value := .map [("kind", "b"), ("size", .int 1)]

/-- The literals under the key of the two options are texts. -/
theorem isJson_of_hasTag_taggedOptions : ∀ option ∈ taggedOptions, ∀ allowed,
    taggedContext.registry.HasTag "kind" option allowed → allowed.IsJson := by
  have object : taggedContext.registry.HasTag "kind" taggedOptions[0] "a" :=
    ⟨_, _, .object, rfl, rfl⟩
  have lazy : taggedContext.registry.HasTag "kind" taggedOptions[1] "b" :=
    ⟨_, _, .lazy rfl, rfl, rfl⟩
  intro option ho allowed ht
  rcases List.mem_cons.mp ho with rfl | ho
  · obtain rfl := ht.unique object
    exact .text _
  · obtain rfl := List.mem_singleton.mp ho
    obtain rfl := ht.unique lazy
    exact .text _

/-- The literal of the second option selects it for a value that the union parses. -/
theorem tellsApart_of_discriminator_kind :
    (taggedContext.discriminator taggedOptions).outcome = .ok (some "kind") ∧
      taggedContext.registry.ParsesTo (.union taggedOptions) taggedValue
        (some (.map [("kind", "b")])) ∧
      taggedContext.registry.TellsApart "kind" taggedOptions taggedValue := by
  refine ⟨rfl, rfl, ?_⟩
  refine Registry.tellsApart_of_discriminator (Registry.ofEntries_isClosed _ _) rfl
    isJson_of_hasTag_taggedOptions (.map ?_ ?_ ?_)
  · simp
  · exact List.pairwise_pair.mpr rfl
  · intro e he
    rcases List.mem_pair.mp he with rfl | rfl
    · exact .text _
    · exact .int _

end ZodSchemas
