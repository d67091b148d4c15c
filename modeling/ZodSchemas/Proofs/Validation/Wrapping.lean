import ZodSchemas.Proofs.Validation.Acceptance

/-!
# What wrappers add

A nullable node accepts null besides what the node in it does, an optional one
absence, and a union what one of its options does. Only what is optional or
anything may be absent: a nullable node and a union need a value, whatever
stands in them. So a property that is made nullable, or that gets a further
option, still admits the objects that have it, and those without it when it is
optional all the same.
-/

namespace ZodSchemas

open Validation

/-- The second node is the first with null or with options added at its outside. -/
inductive Node.WidensTo : Node → Node → Prop where
  /-- Null is added. -/
  | nullable {node : Node} : WidensTo node (.nullable node)
  /-- Options are added to a single node. -/
  | option {node : Node} {options : List Node} (member : node ∈ options) :
      WidensTo node (.union options)
  /-- Options are added to some. -/
  | options {options others : List Node} (kept : ∀ option ∈ options, option ∈ others) :
      WidensTo (.union options) (.union others)
  /-- Something is added beside null. -/
  | inNullable {old new : Node} (widens : WidensTo old new) :
      WidensTo (.nullable old) (.nullable new)
  /-- Something is added beside absence. -/
  | inOptional {old new : Node} (widens : WidensTo old new) :
      WidensTo (.optional old) (.optional new)

/-- What the wrappers of nodes add to what the nodes accept, about one value or its absence. -/
structure Registry.HasExactWrappers (registry : Registry) (value : Option Value) : Prop where
  /-- Null is added, but not absence. -/
  nullable : ∀ node, registry.Accepts (.nullable node) value ↔
    value = some .null ∨ value.isSome = true ∧ registry.Accepts node value
  /-- Absence is added. -/
  optional : ∀ node, registry.Accepts (.optional node) value ↔
    value = none ∨ registry.Accepts node value
  /-- A union accepts what one of its options does, but not absence. -/
  union : ∀ options, registry.Answers (.union options) value →
    (registry.Accepts (.union options) value ↔
      value.isSome = true ∧ ∃ option ∈ options, registry.Accepts option value)
  /-- An object stays accepted when a property is widened that it has, or that is optional. -/
  widened : ∀ (front back : Entries Node) (key : Key) (old new : Node) (required others : List Key),
    old.WidensTo new →
    (∀ v entries, value = some v → v.entries? = some entries → Entries.has key entries = true) ∨
      (∃ inner, new = .optional inner) →
    registry.Accepts (.object (front ++ (key, old) :: back) required) value →
    registry.Answers (.object (front ++ (key, new) :: back) others) value →
    registry.Accepts (.object (front ++ (key, new) :: back) others) value
  /-- There is an answer when all lengths, all listed values and all of the value can be written. -/
  answered : registry.IsAcyclic → (∀ v ∈ value, v.IsWritable) →
    ∀ node, registry.Everywhere registry.IsConcrete node → registry.Answers node value

namespace Validation

variable {registry : Registry} {node inner old new : Node} {value : Option Value} {v : Value}
  {path : Path} {first second : Verdict}

/-- A union that is answered accepts what one of its options does. -/
theorem valid_of_option {options : List Node} {option : Node} (hm : option ∈ options)
    (hf : Derives registry option (some v) path first) (hi : first.issues = [])
    (hs : Derives registry (.union options) (some v) path second) : second.issues = [] := by
  rcases cases_of_union hs with ⟨hvalid, -⟩ | ⟨-, hfaulty⟩
  · exact hvalid
  · obtain ⟨faulty, hd, hissues⟩ := hfaulty option hm
    obtain rfl := hf.unique hd
    exact absurd hi hissues

/-- A value that a node accepts is not rejected by a wider one. -/
theorem valid_of_widensTo (hw : old.WidensTo new)
    (hf : Derives registry old (some v) path first) (hi : first.issues = [])
    (hs : Derives registry new (some v) path second) : second.issues = [] := by
  induction hw with
  | nullable =>
    by_cases hn : v = .null
    · subst hn
      rw [derives_null.mp hs]
      rfl
    · obtain rfl := hf.unique ((derives_nullable hn).mp hs)
      exact hi
  | option member => exact valid_of_option member hf hi hs
  | options kept =>
    rcases cases_of_union hf with ⟨-, option, hm, hd⟩ | ⟨hissues, -⟩
    · exact valid_of_option (kept option hm) hd hi hs
    · exact absurd hi hissues
  | inNullable _ ih =>
    by_cases hn : v = .null
    · subst hn
      rw [derives_null.mp hs]
      rfl
    · exact ih ((derives_nullable hn).mp hf) ((derives_nullable hn).mp hs)
  | inOptional _ ih => exact ih (derives_optional.mp hf) (derives_optional.mp hs)

/-- Null or what the node accepts. -/
theorem accepts_nullable (hc : registry.IsClosed) (hv : ∀ v ∈ value, v.isFinite = true) :
    registry.Accepts (.nullable inner) value ↔
      value = some .null ∨ value.isSome = true ∧ registry.Accepts inner value := by
  cases value with
  | none => simpa using not_accepts_none rfl
  | some v =>
    rw [accepts_iff_derives hc hv, accepts_iff_derives hc hv]
    by_cases hn : v = .null
    · subst hn
      simp [derives_null, Verdict.accept]
    · simp [derives_nullable hn, hn]

/-- Absence or what the node accepts. -/
theorem accepts_optional (hc : registry.IsClosed) (hv : ∀ v ∈ value, v.isFinite = true) :
    registry.Accepts (.optional inner) value ↔ value = none ∨ registry.Accepts inner value := by
  rw [accepts_iff_derives hc hv, accepts_iff_derives hc hv]
  cases value with
  | none => simp [derives_optional_none, Verdict.accept]
  | some v => simp [derives_optional]

/-- What one of the options accepts. -/
theorem accepts_union (hc : registry.IsClosed) (hv : ∀ v ∈ value, v.isFinite = true)
    {options : List Node} (ha : registry.Answers (.union options) value) :
    registry.Accepts (.union options) value ↔
      value.isSome = true ∧ ∃ option ∈ options, registry.Accepts option value := by
  cases value with
  | none => simpa using not_accepts_none rfl
  | some v =>
    simp only [accepts_iff_derives hc hv, Option.isSome_some, true_and]
    constructor
    · rintro ⟨verdict, hd, hi⟩
      rcases cases_of_union hd with ⟨-, option, hm, ho⟩ | ⟨hissues, -⟩
      · exact ⟨option, hm, verdict, ho, hi⟩
      · exact absurd hi hissues
    · rintro ⟨option, hm, first, hf, hi⟩
      obtain ⟨second, hs⟩ := (answers_iff_derives hc hv).mp ha
      exact ⟨second, hs, valid_of_option hm hf hi hs⟩

/-- A property that is present, or optional, is not rejected when it is widened. -/
theorem valid_of_property (hw : old.WidensTo new)
    (hp : value.isSome = true ∨ ∃ inner, new = .optional inner)
    (hf : Derives registry old value path first) (hi : first.issues = [])
    (hs : Derives registry new value path second) : second.issues = [] := by
  cases value with
  | some v => exact valid_of_widensTo hw hf hi hs
  | none =>
    obtain ⟨inner, rfl⟩ : ∃ inner, new = .optional inner := by simpa using hp
    rw [derives_optional_none.mp hs]
    rfl

/-- An object that is accepted is not rejected when a property is widened that it has, or that is
optional. -/
theorem accepts_widened (hc : registry.IsClosed) (hv : ∀ v ∈ value, v.isFinite = true)
    {front back : Entries Node} {key : Key} {required others : List Key} (hw : old.WidensTo new)
    (hp : (∀ v entries, value = some v → v.entries? = some entries →
      Entries.has key entries = true) ∨ ∃ inner, new = .optional inner)
    (ho : registry.Accepts (.object (front ++ (key, old) :: back) required) value)
    (ha : registry.Answers (.object (front ++ (key, new) :: back) others) value) :
    registry.Accepts (.object (front ++ (key, new) :: back) others) value := by
  obtain ⟨first, hf, hi⟩ := (accepts_iff_derives hc hv).mp ho
  obtain ⟨second, hs⟩ := (answers_iff_derives hc hv).mp ha
  refine (accepts_iff_derives hc hv).mpr ⟨second, hs, ?_⟩
  cases value with
  | none => exact absurd ho (not_accepts_none rfl)
  | some v =>
    cases hm : v.entries? with
    | none =>
      obtain rfl := (derives_object_of_none hm).mp hf
      simp [Verdict.reject] at hi
    | some entries =>
      obtain ⟨verdicts, rfl, judged⟩ := (derives_object hm).mp hf
      obtain ⟨widened, rfl, judgedAgain⟩ := (derives_object hm).mp hs
      have valid := List.flatMap_eq_nil_iff.mp hi
      -- The other properties are judged as they were.
      have unchanged : ∀ e ∈ front ++ back, (widened e).issues = [] := by
        intro e he
        have kept : ∀ property : Key × Node, e ∈ front ++ property :: back := fun property =>
          ((List.sublist_cons_self property back).append_left front).subset he
        rw [← (judged e (kept _)).unique (judgedAgain e (kept _))]
        exact valid e (kept _)
      have changed : (widened (key, new)).issues = [] :=
        valid_of_property hw (hp.imp_left fun h => h v entries rfl hm)
          (judged (key, old) (by simp)) (valid (key, old) (by simp))
          (judgedAgain (key, new) (by simp))
      refine List.flatMap_eq_nil_iff.mpr fun e he => ?_
      rcases List.mem_append.mp he with he | he
      · exact unchanged e (List.mem_append_left _ he)
      · rcases List.mem_cons.mp he with rfl | he
        · exact changed
        · exact unchanged e (List.mem_append_right _ he)

end Validation

/-- Wrappers add exactly what they say. -/
theorem wrappers_add_exactly {registry : Registry} (hc : registry.IsClosed) {value : Option Value}
    (hv : ∀ v ∈ value, v.isFinite = true) : registry.HasExactWrappers value where
  nullable _ := accepts_nullable hc hv
  optional _ := accepts_optional hc hv
  union _ ha := accepts_union hc hv ha
  widened _ _ _ _ _ _ _ hw hp ho ha := accepts_widened hc hv hw hp ho ha
  answered ha hw _ hn := answers_of_everywhere ha hc hv hn hw

/-- Members of a group, some of whom have a nickname. -/
def memberNode (name : Node) : Node :=
  .object [("name", name), ("nickname", .optional (.string []))] ["name"]

/-- Groups of members. -/
def memberRegistry : Registry := .ofEntries [] [("Member", memberNode (.string []))]

/-- A member without a nickname. -/
def memberValue : Value := .map [("name", "a")]

/-- The wrappers are exact about a member and about none. A member whose name may be null is still
accepted. -/
theorem wrappers_add_exactly_member :
    memberRegistry.HasExactWrappers (some memberValue) ∧ memberRegistry.HasExactWrappers none ∧
    memberRegistry.Accepts (memberNode (.nullable (.string []))) (some memberValue) := by
  have hc : memberRegistry.IsClosed := Registry.ofEntries_isClosed [] _
  have hsome : memberRegistry.HasExactWrappers (some memberValue) :=
    wrappers_add_exactly hc (by rintro v ⟨⟩; rfl)
  refine ⟨hsome, wrappers_add_exactly hc (by simp), ?_⟩
  refine hsome.widened [] _ "name" (.string []) _ ["name"] _ .nullable (.inl ?_) ⟨_, rfl⟩ ⟨_, rfl⟩
  rintro v entries ⟨⟩ ⟨⟩
  rfl

/-- Wrappers add less where absence is accepted, and where a message cannot be written: what accepts
anything accepts absence but does not when it is nullable or an option, so that an object without
the property is rejected; and there is no answer about a text that the second option accepts. -/
theorem wrappers_add_less :
    (Registry.ofEntries [] []).IsAcyclic ∧
    ((Registry.ofEntries [] []).Accepts .unknown none ∧
      ¬ (Registry.ofEntries [] []).Accepts (.nullable .unknown) none ∧
      ¬ (Registry.ofEntries [] []).Accepts (.union [.unknown]) none) ∧
    ((Registry.ofEntries [] []).Accepts (.object [("a", .unknown)] ["a"]) (some (.map [])) ∧
      ¬ (Registry.ofEntries [] []).Accepts (.object [("a", .nullable .unknown)] ["a"])
        (some (.map []))) ∧
    (Registry.ofEntries [] []).Accepts (.string []) (some "a") ∧
      ¬ (Registry.ofEntries [] []).Accepts
        (.union [.string [⟨.min, .int greatNumber⟩], .string []]) (some "a") := by
  have hc : (Registry.ofEntries [] []).IsClosed := Registry.ofEntries_isClosed [] []
  have judging (node : Node) : validateAt (.ofEntries [] []) node (some "a") [] = _ :=
    validateAt_eq Registry.isAcyclic_ofEntries_nil hc node (by rintro v ⟨⟩; rfl) []
  have refused : ∀ n : Nat, Numeral.integer? n = none → 1 < n →
      (parse (.ofEntries [] []) (.union [.string [⟨.min, .int n⟩], .string []])
        (some "a")).outcome = .error .tooManyDigits := by
    intro n hn hl
    refine Traced.bind_eq_error.mpr (.inl ?_)
    rw [validate, judging]
    refine Traced.bind_eq_error.mpr (.inl ?_)
    rw [judging]
    refine Traced.bind_eq_error.mpr (.inl ?_)
    exact exceptBind_eq_error.mpr (.inl (checkIssues_unwritable hn hl))
  refine ⟨Registry.isAcyclic_ofEntries_nil,
    ⟨⟨_, rfl⟩, not_accepts_none rfl, not_accepts_none rfl⟩, ⟨⟨_, rfl⟩, ?_⟩, ⟨_, rfl⟩, ?_⟩
  · have hissues : (parse (.ofEntries [] []) (.object [("a", .nullable .unknown)] ["a"])
        (some (.map []))).outcome = .ok (.error [⟨[.key "a"], "Required"⟩]) := rfl
    exact not_accepts_of_issues hissues
  · rintro ⟨data, h⟩
    rw [refused greatNumber integer?_greatNumber one_lt_greatNumber] at h
    simp at h

end ZodSchemas
