import ZodSchemas.Proofs.Declaration.Discriminator
import ZodSchemas.Proofs.Declaration.Uses

/-!
# When a key is found

The options of a union are looked at one after the other, with the key of the
first and the literals of all before, and the search ends at the first option
that does not fit. What it finds can be said of all options at once: each is an
object at hand, one and the same key holds its only literal, and no two of the
literals are of one sort and equal. Nothing in this depends on the order of the
options, and an object at hand is never written as a deferred use.
-/

namespace ZodSchemas

namespace Value

/-- A JSON value equals itself as a part of others. -/
theorem IsJson.same_self {v : Value} (h : v.IsJson) : v.same v = true := by
  induction h with
  | list _ ih => exact same_list.mpr ⟨_, rfl, List.forall₂_same.mpr ih⟩
  | map _ differ _ ih =>
    exact same_map.mpr ⟨_, rfl, rfl, fun e he => ⟨e.2, Entries.find?_of_mem differ he, ih e he⟩⟩
  | _ => exact same_atom.mpr ⟨_, rfl, Key.same_self _⟩

/-- Of two JSON values each matches the other or none does. -/
theorem IsJson.isMatch_comm {a b : Value} (ha : a.IsJson) (hb : b.IsJson) :
    a.isMatch b = b.isMatch a := by
  have turn : ∀ {a b : Value}, a.IsJson → b.IsJson → a.isMatch b = true → b.isMatch a = true := by
    intro a b ha hb h
    simp only [isMatch, Bool.and_eq_true, beq_iff_eq, equals_iff] at h ⊢
    obtain ⟨hk, hs, hn⟩ := h
    exact ⟨hk.symm, same_of_same hb ha hs hb.same_self, fun m n hab => hn n m hab.symm⟩
  exact Bool.eq_iff_iff.mpr ⟨turn ha hb, turn hb ha⟩

end Value

/-- A node that allows one value: a literal, or an enumeration of one. -/
inductive Node.AllowsOnly : Node → Value → Prop where
  /-- A literal. -/
  | literal (v : Value) : AllowsOnly (.literal v) v
  /-- An enumeration of one value. -/
  | enum (v : Value) : AllowsOnly (.enum [v]) v

/-- Exactly one of some properties allows a single value; it has this key, and allows this. -/
def IsOnlyLiteral (properties : Entries Node) (key : Key) (allowed : Value) : Prop :=
  ∃ front node back, properties = front ++ (key, node) :: back ∧ node.AllowsOnly allowed ∧
    ∀ e ∈ front ++ back, ∀ v, ¬ e.2.AllowsOnly v

/-- The only literal of the object that an option stands for has this key, and allows this. -/
def Registry.IsTag (registry : Registry) (key : Key) (option : Node) (allowed : Value) : Prop :=
  ∃ properties, registry.StandsFor option properties ∧ IsOnlyLiteral properties key allowed

/-- An option is at hand unless it is a reference whose name is not declared. -/
def Context.IsAtHand (c : Context) (option : Node) : Prop :=
  ∀ ref, option = .lazy ref → c.progress.isDeclared ref.name = true

/-- An option resolves unless it is a reference that leads to no body. -/
def Context.Resolves (c : Context) (option : Node) : Prop :=
  ∀ ref, option = .lazy ref → ∃ body, c.registry.body ref = .ok body

/-- What is asked of the options of a union so that the search for a key is well behaved. -/
structure Context.AreReadable (c : Context) (options : List Node) : Prop where
  /-- The options resolve. -/
  resolves : ∀ option ∈ options, c.Resolves option
  /-- The keys of the objects behind the options are texts. -/
  texts : ∀ option ∈ options, ∀ properties, c.registry.StandsFor option properties →
    ∀ e ∈ properties, ∃ t, e.1 = .text t
  /-- The literals in these objects are JSON values. -/
  json : ∀ option ∈ options, ∀ properties, c.registry.StandsFor option properties →
    ∀ e ∈ properties, ∀ v, e.2.AllowsOnly v → v.IsJson

/-- A key tells the options of a union apart, whichever way one looks at them. -/
structure Context.Discriminates (c : Context) (key : Key) (options : List Node) : Prop where
  /-- There are at least two options. -/
  several : 2 ≤ options.length
  /-- All of them are at hand. -/
  atHand : ∀ option ∈ options, c.IsAtHand option
  /-- Each of them stands for an object whose only literal has the key. -/
  tagged : ∀ option ∈ options, ∃ allowed, c.registry.IsTag key option allowed
  /-- The literals of any two differ in sort or in value. -/
  apart : options.Pairwise fun option other => ∀ a b, c.registry.IsTag key option a →
    c.registry.IsTag key other b → a.kind ≠ b.kind ∨ a.equals b = false

namespace Context

variable {c : Context}

/-- A single value is read off a node that allows only that. -/
theorem literalValue?_eq_some {node : Node} {v : Value} :
    literalValue? node = some v ↔ node.AllowsOnly v := by
  unfold literalValue?
  split
  · simp only [Option.some.injEq]
    exact ⟨fun h => h ▸ .literal _, fun h => by cases h; rfl⟩
  · simp only [Option.some.injEq]
    exact ⟨fun h => h ▸ .enum _, fun h => by cases h; rfl⟩
  · next hl he => exact ⟨nofun, fun h => by cases h <;> simp_all⟩

/-- Properties of which none allows a single value have no tags. -/
theorem tags_eq_nil {properties : Entries Node} :
    tags properties = [] ↔ ∀ e ∈ properties, ∀ v, ¬ e.2.AllowsOnly v := by
  simp only [tags, List.filterMap_eq_nil_iff, Option.map_eq_none_iff]
  refine forall₂_congr fun e _ => ?_
  simp only [Option.eq_none_iff_forall_ne_some, ne_eq, literalValue?_eq_some]

/-- There is one tag when exactly one property allows a single value. -/
theorem tags_eq_singleton {properties : Entries Node} {key : Key} {allowed : Value} :
    tags properties = [(key, allowed)] ↔ IsOnlyLiteral properties key allowed := by
  constructor
  · intro h
    obtain ⟨front, ⟨k, node⟩, back, rfl, hf, hn, hb⟩ := List.filterMap_eq_cons_iff.mp h
    obtain ⟨v, hv, he⟩ := Option.map_eq_some_iff.mp hn
    obtain ⟨rfl, rfl⟩ := Prod.mk.inj he
    have hfront := tags_eq_nil.mp (List.filterMap_eq_nil_iff.mpr hf)
    refine ⟨front, node, back, rfl, literalValue?_eq_some.mp hv, fun e he => ?_⟩
    exact (List.mem_append.mp he).elim (hfront e) (tags_eq_nil.mp hb e)
  · rintro ⟨front, node, back, rfl, hn, ho⟩
    have hfront : tags front = [] := tags_eq_nil.mpr fun e he => ho e (List.mem_append_left _ he)
    have hback : tags back = [] := tags_eq_nil.mpr fun e he => ho e (List.mem_append_right _ he)
    refine List.filterMap_eq_cons_iff.mpr ⟨front, (key, node), back, rfl, ?_, ?_, hback⟩
    · exact List.filterMap_eq_nil_iff.mp hfront
    · simp [literalValue?_eq_some.mpr hn]

/-- An option counts as the object that it stands for, if it is at hand. -/
theorem optionProperties_eq_some {option : Node} {properties : Entries Node} :
    (c.optionProperties option).outcome = .ok (some properties) ↔
      c.IsAtHand option ∧ c.registry.StandsFor option properties := by
  constructor
  · intro h
    refine ⟨?_, standsFor_of_optionProperties h⟩
    rintro ref rfl
    by_contra hn
    simp [optionProperties, hn] at h
  · rintro ⟨hd, hs⟩
    cases hs with
    | object => rfl
    | @lazy ref _ required hb =>
      have hb : (c.registry.resolve ref).asRendering.outcome =
          .ok (.object properties required) :=
        Traced.mapError_eq_ok.mpr (Registry.resolve_eq_ok.mpr hb)
      rw [optionProperties, if_pos (hd ref rfl)]
      exact Traced.bind_eq_ok.mpr ⟨_, hb, rfl⟩

/-- Whether an option counts is decided where it resolves. -/
theorem exists_optionProperties {option : Node} (h : c.Resolves option) :
    ∃ answer, (c.optionProperties option).outcome = .ok answer := by
  unfold optionProperties
  split
  · next ref =>
    split
    · obtain ⟨body, hb⟩ := h ref rfl
      have hb : (c.registry.resolve ref).asRendering.outcome = .ok body :=
        Traced.mapError_eq_ok.mpr (Registry.resolve_eq_ok.mpr hb)
      rw [Traced.outcome_bind, hb]
      dsimp only [Except.bind]
      split
      · exact ⟨_, rfl⟩
      · exact ⟨_, rfl⟩
    · exact ⟨_, rfl⟩
  · exact ⟨_, rfl⟩
  · exact ⟨_, rfl⟩

/-- The search ends where all options resolve. -/
theorem exists_discriminatorFrom {options : List Node} (h : ∀ option ∈ options, c.Resolves option)
    (key : Option Key) (seen : List Value) :
    ∃ answer, (c.discriminatorFrom key seen options).outcome = .ok answer := by
  induction options generalizing key seen with
  | nil => exact ⟨key, rfl⟩
  | cons option rest ih =>
    obtain ⟨hoption, hrest⟩ := List.forall_mem_cons.mp h
    obtain ⟨answer, ha⟩ := exists_optionProperties hoption
    rw [discriminatorFrom, Traced.outcome_bind, ha]
    dsimp only [Except.bind]
    split
    · exact ⟨none, rfl⟩
    · split
      · split
        · split
          · exact ⟨none, rfl⟩
          · exact ih hrest _ _
        · exact ⟨none, rfl⟩
      · exact ⟨none, rfl⟩

/-- A key is found when the next option is at hand with a tag that goes with those before, and the
key is found behind it. -/
theorem discriminatorFrom_cons_eq_some_iff_isTag {key : Option Key} {seen : List Value}
    {option : Node} {rest : List Node} {found : Key} :
    (c.discriminatorFrom key seen (option :: rest)).outcome = .ok (some found) ↔
      ∃ tag allowed, c.IsAtHand option ∧ c.registry.IsTag tag option allowed ∧
        (∀ k ∈ key, k.same tag = true) ∧ (∀ v ∈ seen, allowed.isMatch v = false) ∧
        (c.discriminatorFrom (some (key.getD tag)) (seen ++ [allowed]) rest).outcome =
          .ok (some found) := by
  rw [discriminatorFrom_cons_eq_some]
  constructor
  · rintro ⟨properties, tag, allowed, hp, ht, h⟩
    obtain ⟨hd, hs⟩ := optionProperties_eq_some.mp hp
    exact ⟨tag, allowed, hd, ⟨properties, hs, tags_eq_singleton.mp ht⟩, h⟩
  · rintro ⟨tag, allowed, hd, ⟨properties, hs, ht⟩, h⟩
    exact ⟨properties, tag, allowed, optionProperties_eq_some.mpr ⟨hd, hs⟩,
      tags_eq_singleton.mpr ht, h⟩

variable {options : List Node}

/-- The key of a tag is a text. -/
theorem AreReadable.exists_text (h : c.AreReadable options) {option : Node} (ho : option ∈ options)
    {tag : Key} {allowed : Value} (ht : c.registry.IsTag tag option allowed) :
    ∃ t, tag = .text t := by
  obtain ⟨_, hs, front, node, back, rfl, -, -⟩ := ht
  exact h.texts option ho _ hs (tag, node) (by simp)

/-- The literal under a tag is a JSON value. -/
theorem AreReadable.isJson (h : c.AreReadable options) {option : Node} (ho : option ∈ options)
    {tag : Key} {allowed : Value} (ht : c.registry.IsTag tag option allowed) : allowed.IsJson := by
  obtain ⟨_, hs, front, node, back, rfl, hn, -⟩ := ht
  exact h.json option ho _ hs (tag, node) (by simp) allowed hn

/-- Fewer options are as readable. -/
theorem AreReadable.mono (h : c.AreReadable options) {others : List Node} (ho : others ⊆ options) :
    c.AreReadable others :=
  ⟨fun option hm => h.resolves option (ho hm), fun option hm => h.texts option (ho hm),
    fun option hm => h.json option (ho hm)⟩

/-- An option has one tag. -/
theorem isTag_unique {option : Node} {tag : Key} {a b : Value}
    (ha : c.registry.IsTag tag option a) (hb : c.registry.IsTag tag option b) : a = b := by
  obtain ⟨properties, hs, ht⟩ := ha
  obtain ⟨others, hs', ht'⟩ := hb
  obtain rfl := hs.unique hs'
  rw [← tags_eq_singleton] at ht ht'
  simpa using ht.symm.trans ht'

/-- A key fits all options behind some others, whose key and literals are known. -/
structure Fits (c : Context) (found : Key) (key : Option Key) (seen : List Value)
    (options : List Node) : Prop where
  /-- The key is the known one. -/
  known : ∀ k ∈ key, k = found
  /-- There is an option that gave the key or gives it. -/
  begun : key = none → options ≠ []
  /-- All options are at hand. -/
  atHand : ∀ option ∈ options, c.IsAtHand option
  /-- Each of them has a literal under the key. -/
  tagged : ∀ option ∈ options, ∃ a, c.registry.IsTag found option a
  /-- None of their literals matches one in front of it. -/
  apart : options.Pairwise fun option other => ∀ a b, c.registry.IsTag found option a →
    c.registry.IsTag found other b → b.isMatch a = false
  /-- None of them matches a known one. -/
  fresh : ∀ v ∈ seen, ∀ option ∈ options, ∀ a, c.registry.IsTag found option a →
    a.isMatch v = false

/-- A key fits some options when it fits the first of them, and the others behind that. -/
theorem fits_cons {found : Key} {key : Option Key} {seen : List Value} {option : Node}
    {rest : List Node} : c.Fits found key seen (option :: rest) ↔
      ∃ allowed, c.IsAtHand option ∧ c.registry.IsTag found option allowed ∧
        (∀ k ∈ key, k = found) ∧ (∀ v ∈ seen, allowed.isMatch v = false) ∧
        c.Fits found (some found) (seen ++ [allowed]) rest := by
  constructor
  · rintro ⟨known, -, atHand, tagged, apart, fresh⟩
    obtain ⟨hd, atHand⟩ := List.forall_mem_cons.mp atHand
    obtain ⟨⟨allowed, ht⟩, tagged⟩ := List.forall_mem_cons.mp tagged
    obtain ⟨hfirst, apart⟩ := List.pairwise_cons.mp apart
    refine ⟨allowed, hd, ht, known, fun v hv => fresh v hv option List.mem_cons_self _ ht,
      fun k hk => (Option.some.inj hk).symm, nofun, atHand, tagged, apart, ?_⟩
    refine List.forall_mem_append.mpr ⟨fun v hv other ho => ?_, ?_⟩
    · exact fresh v hv other (List.mem_cons_of_mem _ ho)
    · exact List.forall_mem_singleton.mpr fun other ho b hb => hfirst other ho allowed b ht hb
  · rintro ⟨allowed, hd, ht, known, hn, -, -, atHand, tagged, apart, fresh⟩
    obtain ⟨hseen, hlast⟩ := List.forall_mem_append.mp fresh
    have hfirst := List.forall_mem_singleton.mp hlast
    refine ⟨known, fun _ => List.cons_ne_nil _ _, List.forall_mem_cons.mpr ⟨hd, atHand⟩,
      List.forall_mem_cons.mpr ⟨⟨allowed, ht⟩, tagged⟩, List.pairwise_cons.mpr ⟨?_, apart⟩, ?_⟩
    · intro other ho a b ha hb
      rw [isTag_unique ha ht]
      exact hfirst other ho b hb
    · refine fun v hv => List.forall_mem_cons.mpr ⟨fun a ha => ?_, hseen v hv⟩
      rw [isTag_unique ha ht]
      exact hn v hv

/-- The search behind some options finds the key that fits all others. -/
theorem discriminatorFrom_eq_some (h : c.AreReadable options) {key : Option Key}
    {seen : List Value} {found : Key} :
    (c.discriminatorFrom key seen options).outcome = .ok (some found) ↔
      c.Fits found key seen options := by
  induction options generalizing key seen with
  | nil =>
    refine ⟨fun h => ?_, fun h => ?_⟩
    · obtain rfl : key = some found := by simpa [discriminatorFrom] using h
      constructor <;> simp
    · cases key with
      | none => exact absurd rfl (h.begun rfl)
      | some k => rw [h.known k rfl]; rfl
  | cons option rest ih =>
    have hrest := h.mono (List.subset_cons_self option rest)
    rw [discriminatorFrom_cons_eq_some_iff_isTag, fits_cons]
    constructor
    · rintro ⟨tag, allowed, hd, ht, hk, hn, hfound⟩
      have hfits := (ih hrest).mp hfound
      obtain rfl := hfits.known _ rfl
      -- The key so far is a text that is the same as the tag.
      obtain ⟨t, rfl⟩ := h.exists_text List.mem_cons_self ht
      have htag : key.getD (.text t) = .text t := by
        cases key with
        | none => rfl
        | some k => exact Key.eq_text_of_same (hk k rfl)
      rw [htag] at hfits ⊢
      exact ⟨allowed, hd, ht, fun k hm => Key.eq_text_of_same (hk k hm), hn, hfits⟩
    · rintro ⟨allowed, hd, ht, hk, hn, hfits⟩
      have hfound : key.getD found = found := by
        cases key with
        | none => rfl
        | some k => exact hk k rfl
      refine ⟨found, allowed, hd, ht, fun k hm => ?_, hn, ?_⟩
      · rw [hk k hm, Key.same_self]
      · rw [hfound]
        exact (ih hrest).mpr hfits

/-- The search finds the key that tells the options apart. -/
theorem discriminator_eq_some (h : c.AreReadable options) {key : Key} :
    (c.discriminator options).outcome = .ok (some key) ↔ c.Discriminates key options := by
  -- Whether literals match does not depend on which of them is asked.
  have turn : ∀ option ∈ options, ∀ other ∈ options, ∀ a b, c.registry.IsTag key option a →
      c.registry.IsTag key other b →
        (b.isMatch a = false ↔ a.kind ≠ b.kind ∨ a.equals b = false) := by
    intro option ho other ho' a b ha hb
    rw [(h.isJson ho' hb).isMatch_comm (h.isJson ho ha), Value.isMatch, Bool.and_eq_false_iff,
      beq_eq_false_iff_ne]
  rw [discriminator]
  split
  · next hl =>
    exact ⟨fun hn => by simp at hn, fun hd => absurd hd.several (by omega)⟩
  · next hl =>
    rw [discriminatorFrom_eq_some h]
    constructor
    · intro hf
      refine ⟨by omega, hf.atHand, hf.tagged, hf.apart.imp_of_mem fun ho ho' hn a b ha hb => ?_⟩
      exact (turn _ ho _ ho' a b ha hb).mp (hn a b ha hb)
    · intro hd
      have hne : options ≠ [] := by
        rintro rfl
        exact hl (by simp)
      refine ⟨by simp, fun _ => hne, hd.atHand, hd.tagged,
        hd.apart.imp_of_mem fun ho ho' hn a b ha hb => ?_, by simp⟩
      exact (turn _ ho _ ho' a b ha hb).mpr (hn a b ha hb)

/-- A key tells options apart in whichever order they come. -/
theorem Discriminates.perm (h : c.AreReadable options) {key : Key}
    (hd : c.Discriminates key options) {others : List Node} (hp : options.Perm others) :
    c.Discriminates key others := by
  have hapart : options.Pairwise fun option other => ∀ a b, c.registry.IsTag key option a →
      c.registry.IsTag key other b → a.isMatch b = false ∧ b.isMatch a = false := by
    refine hd.apart.imp_of_mem fun {option other} ho ho' hn a b ha hb => ?_
    have hab : a.isMatch b = false := by
      rw [Value.isMatch, Bool.and_eq_false_iff, beq_eq_false_iff_ne]
      exact hn a b ha hb
    exact ⟨hab, (h.isJson ho' hb).isMatch_comm (h.isJson ho ha) ▸ hab⟩
  have hother := (hp.pairwise_iff fun hn a b ha hb => (hn b a hb ha).symm).mp hapart
  refine ⟨hp.length_eq ▸ hd.several, fun option ho => hd.atHand option (hp.mem_iff.mpr ho),
    fun option ho => hd.tagged option (hp.mem_iff.mpr ho), hother.imp fun hn a b ha hb => ?_⟩
  have hab := (hn a b ha hb).1
  rwa [Value.isMatch, Bool.and_eq_false_iff, beq_eq_false_iff_ne] at hab

/-- The term of an object that is at hand is that object, or a use that is not deferred. -/
theorem isBare_of_term {option : Node} {properties : Entries Node}
    (hd : c.IsAtHand option) (hs : c.registry.StandsFor option properties) {path : Key} {t : Term}
    (h : (c.term option path).outcome = .ok t) :
    (∃ parts, t = .object parts) ∨ ∃ u, t = .use u ∧ u.isDeferred = false := by
  cases hs with
  | object =>
    rw [term] at h
    obtain ⟨parts, -, h⟩ := Traced.bind_eq_ok.mp h
    exact .inl ⟨parts, (Traced.pure_eq_ok.mp h).symm⟩
  | @lazy ref _ _ hb =>
    rw [term] at h
    obtain ⟨u, hu, h⟩ := Traced.bind_eq_ok.mp h
    refine .inr ⟨u, (Traced.pure_eq_ok.mp h).symm, ?_⟩
    rw [(renders_use hu).isDeferred, hd ref rfl]
    rfl

/-- Each rendered option is the term of an option. -/
theorem exists_option_of_mem {options : List Node} {index : Nat} {path : Key} {parts : List Term}
    (h : (c.optionTerms index options path).outcome = .ok parts) :
    ∀ part ∈ parts, ∃ option ∈ options, ∃ place, (c.term option place).outcome = .ok part := by
  induction options generalizing index parts with
  | nil =>
    obtain rfl : [] = parts := by simpa [optionTerms] using h
    exact nofun
  | cons option rest ih =>
    rw [optionTerms] at h
    obtain ⟨place, -, h⟩ := Traced.bind_eq_ok.mp h
    obtain ⟨first, hf, h⟩ := Traced.bind_eq_ok.mp h
    obtain ⟨others, hr, h⟩ := Traced.bind_eq_ok.mp h
    obtain rfl := Traced.pure_eq_ok.mp h
    refine List.forall_mem_cons.mpr ⟨⟨option, List.mem_cons_self, place, hf⟩, fun part hp => ?_⟩
    obtain ⟨other, ho, hother⟩ := ih hr part hp
    exact ⟨other, List.mem_cons_of_mem _ ho, hother⟩

/-- A union is written as a discriminated one when a key is found for its options. -/
theorem exists_discriminator_of_term {path : Key} {name : Text} {parts : List Term}
    (h : (c.term (.union options) path).outcome = .ok (.discriminated name parts)) :
    (c.optionTerms 0 options path).outcome = .ok parts ∧
      ∃ key, (c.discriminator options).outcome = .ok (some key) := by
  rw [term] at h
  obtain ⟨others, ho, h⟩ := Traced.bind_eq_ok.mp h
  obtain ⟨key, hk, h⟩ := Traced.bind_eq_ok.mp h
  cases key with
  | none => simp [unionTerm] at h
  | some key =>
    obtain ⟨written, -, h⟩ := Traced.bind_eq_ok.mp h
    obtain ⟨-, rfl⟩ := Term.discriminated.inj (Traced.pure_eq_ok.mp h)
    exact ⟨ho, key, hk⟩

/-- The search for a key ends, and finds a key when it tells the options apart. -/
theorem exists_answer (h : c.AreReadable options) :
    ∃ answer, (c.discriminator options).outcome = .ok answer ∧
      ∀ key, answer = some key ↔ c.Discriminates key options := by
  have hanswer : ∃ answer, (c.discriminator options).outcome = .ok answer := by
    rw [discriminator]
    split
    · exact ⟨none, rfl⟩
    · exact exists_discriminatorFrom h.resolves none []
  obtain ⟨answer, ha⟩ := hanswer
  refine ⟨answer, ha, fun key => ?_⟩
  rw [← discriminator_eq_some h, ha, Except.ok.injEq]

/-- What the search for a key does with the options of a union. -/
structure Detects (c : Context) (options : List Node) : Prop where
  /-- It ends, and finds the key that tells the options apart, or no key when there is none. -/
  exact : ∃ answer, (c.discriminator options).outcome = .ok answer ∧
    ∀ key, answer = some key ↔ c.Discriminates key options
  /-- It finds the same in whichever order the options come. -/
  ordered : ∀ others : List Node, options.Perm others →
    (c.discriminator others).outcome = (c.discriminator options).outcome
  /-- No option of a discriminated union is a deferred use: each is an object or a bare use. -/
  bare : ∀ (path : Key) (name : Text) (parts : List Term),
    (c.term (.union options) path).outcome = .ok (.discriminated name parts) → ∀ part ∈ parts,
      (∃ properties, part = .object properties) ∨ ∃ u, part = .use u ∧ u.isDeferred = false

/-- The search for a key finds exactly what tells the options of a union apart. -/
theorem detects_of_areReadable (h : c.AreReadable options) : c.Detects options := by
  refine ⟨exists_answer h, fun others hp => ?_, fun path name parts ht part hpart => ?_⟩
  · have hother : c.AreReadable others := h.mono hp.symm.subset
    obtain ⟨answer, ha, hfound⟩ := exists_answer h
    obtain ⟨other, ho, hfound'⟩ := exists_answer hother
    have hsame : ∀ key, other = some key ↔ answer = some key := fun key =>
      calc other = some key ↔ c.Discriminates key others := hfound' key
        _ ↔ c.Discriminates key options :=
          ⟨fun hd => hd.perm hother hp.symm, fun hd => hd.perm h hp⟩
        _ ↔ answer = some key := (hfound key).symm
    rw [ha, ho, Option.ext hsame]
  · obtain ⟨hparts, key, hk⟩ := exists_discriminator_of_term ht
    have hd := (discriminator_eq_some h).mp hk
    obtain ⟨option, ho, place, hterm⟩ := exists_option_of_mem hparts part hpart
    obtain ⟨allowed, properties, hs, -⟩ := hd.tagged option ho
    exact isBare_of_term (hd.atHand option ho) hs hterm

/-- The key of two tagged options, one of them behind a reference, is found in either order. -/
theorem detects_of_areReadable_tagged :
    taggedContext.AreReadable taggedOptions ∧
      (taggedContext.discriminator taggedOptions.reverse).outcome = .ok (some "kind") ∧
      taggedContext.Detects taggedOptions := by
  have hobject : taggedContext.registry.StandsFor taggedOptions[0]
      [("kind", .literal "a"), ("size", .number)] := .object
  have hlazy : taggedContext.registry.StandsFor taggedOptions[1] [("kind", .enum ["b"])] :=
    .lazy rfl
  have hreadable : taggedContext.AreReadable taggedOptions := by
    refine ⟨List.forall_mem_cons.mpr ⟨nofun, List.forall_mem_singleton.mpr ?_⟩,
      List.forall_mem_cons.mpr ⟨fun properties hs => ?_, List.forall_mem_singleton.mpr ?_⟩,
      List.forall_mem_cons.mpr ⟨fun properties hs => ?_, List.forall_mem_singleton.mpr ?_⟩⟩
    · rintro ref ⟨⟩
      exact ⟨_, rfl⟩
    · obtain rfl := hs.unique hobject
      simp
    · rintro properties hs
      obtain rfl := hs.unique hlazy
      simp
    · obtain rfl := hs.unique hobject
      refine List.forall_mem_cons.mpr ⟨?_, List.forall_mem_singleton.mpr nofun⟩
      rintro v ⟨⟩
      exact .text _
    · rintro properties hs
      obtain rfl := hs.unique hlazy
      refine List.forall_mem_singleton.mpr ?_
      rintro v ⟨⟩
      exact .text _
  exact ⟨hreadable, rfl, detects_of_areReadable hreadable⟩

end Context

end ZodSchemas
