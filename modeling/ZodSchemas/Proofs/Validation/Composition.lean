import ZodSchemas.Proofs.Validation.Repetition

/-!
# Validation at other places

Where a value stands shows in the paths of issues and nowhere else. Every rule
of validation hands the path on, one step longer for a part of the value, so
what a rule decides from judgements that are moved is moved with them; bounds
do not depend on places. The main statement puts two consequences beside this:
the issues of an object or a list are those of its parts, each validated alone
and seen from one step further outside, one part after the other, and it ends
exactly where all of its parts do.
-/

namespace ZodSchemas

namespace Issue

variable {place : Path} {issue : Issue} {step other : Step}

/-- Whether an issue is at a place or inside what is there. -/
def isBelow (place : Path) (issue : Issue) : Bool := decide (place <+: issue.path)

/-- What is seen from further outside is below the place that it is seen through. -/
@[simp] theorem isBelow_under (place : Path) (issue : Issue) :
    (issue.under place).isBelow place = true := by
  simp [isBelow, under]

/-- What is below one step is not below another. -/
theorem isBelow_under_of_ne (h : step ≠ other) (place : Path) (issue : Issue) :
    (issue.under (place ++ [other])).isBelow (place ++ [step]) = false := by
  simpa [isBelow, under, List.append_assoc] using h

end Issue

namespace Verdict

/-- The verdict seen from further outside: its issues are. -/
def under (outer : Path) (verdict : Verdict) : Verdict where
  data := verdict.data
  issues := verdict.issues.map (Issue.under outer)

@[simp] theorem under_reject (outer : Path) (value : Option Value) (path : Path) (message : Text) :
    (reject value path message).under outer = reject value (outer ++ path) message := rfl

/-- From further outside nothing else is wrong. -/
@[simp] theorem isEmpty_issues_under (outer : Path) (verdict : Verdict) :
    (verdict.under outer).issues.isEmpty = verdict.issues.isEmpty := by
  simp [under]

/-- What is wrong is below the place that it is seen through. -/
theorem filter_isBelow_under (place : Path) (verdict : Verdict) :
    (verdict.under place).issues.filter (Issue.isBelow place) = (verdict.under place).issues := by
  refine List.filter_eq_self.mpr fun issue hi => ?_
  obtain ⟨own, -, rfl⟩ := List.mem_map.mp hi
  exact Issue.isBelow_under place own

/-- Nothing that is wrong below one step is below another. -/
theorem filter_isBelow_under_of_ne {step other : Step} (h : step ≠ other) (place : Path)
    (verdict : Verdict) :
    (verdict.under (place ++ [other])).issues.filter (Issue.isBelow (place ++ [step])) = [] := by
  refine List.filter_eq_nil_iff.mpr fun issue hi => ?_
  obtain ⟨own, -, rfl⟩ := List.mem_map.mp hi
  simp [Issue.isBelow_under_of_ne h]

end Verdict

namespace Validation

/-- A judgement further inside is the judgement at the place itself, seen from further outside. -/
def IsMoved (outer : Path) (judging : Path → Judging) : Prop :=
  ∀ path, judging (outer ++ path) = Verdict.under outer <$> judging path

section Rules

variable {outer : Path} {enter unwrap : Judge} {follow : Ref → Option Value → Path → Judging}

/-- A verdict that is given for each place. -/
theorem isMoved_pure {verdict : Path → Verdict}
    (h : ∀ path, verdict (outer ++ path) = (verdict path).under outer) :
    IsMoved outer fun path => pure (verdict path) := by
  intro path
  rw [map_pure]
  exact congrArg pure (h path)

/-- An error is the same everywhere. -/
theorem isMoved_fail (fault : Fault) : IsMoved outer fun _ => Traced.fail fault := fun _ => rfl

/-- What does not depend on the place may come first. -/
theorem isMoved_bind {α : Type} (x : Following Fault α) {f : α → Path → Judging}
    (h : ∀ a, IsMoved outer (f a)) : IsMoved outer fun path => x >>= fun a => f a path := by
  intro path
  rw [map_bind]
  exact bind_congr fun a => h a path

/-- A complaint about the value itself. -/
theorem isMoved_reject (value : Option Value) (message : Text) :
    IsMoved outer fun path => pure (.reject value path message) :=
  isMoved_pure fun path => (Verdict.under_reject outer value path message).symm

/-- A complaint about the value itself, if it can be said. -/
theorem isMoved_rejectWith (v : Value) (complaint : Except Fault Text) :
    IsMoved outer fun path => rejectWith v path complaint :=
  isMoved_bind _ fun message => isMoved_reject (some v) message

/-- Texts are checked without regard to their place. -/
theorem isMoved_string (checks : List Check) (v : Value) : IsMoved outer (string checks v) := by
  unfold string
  split
  · refine isMoved_bind _ fun messages => isMoved_pure fun path => ?_
    simp [Verdict.under, Issue.under]
  · exact isMoved_reject _ _

/-- Numbers are told from other values everywhere. -/
theorem isMoved_number (v : Value) : IsMoved outer fun path => pure (number v path) := by
  refine isMoved_pure fun path => ?_
  unfold number
  split <;> rfl

/-- Truth values are told from other values everywhere. -/
theorem isMoved_boolean (v : Value) : IsMoved outer fun path => pure (boolean v path) := by
  refine isMoved_pure fun path => ?_
  unfold boolean
  split <;> rfl

/-- Properties are moved with the calls that enter the mapping. -/
theorem properties_append (he : ∀ node value, IsMoved outer (enter node value))
    (entries : Entries Value) (path : Path) (nodes : Entries Node) :
    properties enter entries (outer ++ path) nodes =
      Prod.map id (List.map (Issue.under outer)) <$> properties enter entries path nodes := by
  induction nodes with
  | nil => rfl
  | cons e rest ih =>
    rw [properties, properties, ih, List.append_assoc, he]
    simp only [map_bind, bind_map_left, map_pure]
    refine bind_congr fun verdict => bind_congr fun others => ?_
    simp [Verdict.under]

/-- Elements are moved with the calls that enter the list. -/
theorem elements_append (he : ∀ node value, IsMoved outer (enter node value)) (element : Node)
    (path : Path) (index : Nat) (items : List Value) :
    elements enter element (outer ++ path) index items =
      Prod.map id (List.map (Issue.under outer)) <$> elements enter element path index items := by
  induction items generalizing index with
  | nil => rfl
  | cons v rest ih =>
    rw [elements, elements, ih, List.append_assoc, he]
    simp only [map_bind, bind_map_left, map_pure]
    refine bind_congr fun verdict => bind_congr fun others => ?_
    simp [Verdict.under]

/-- Options are moved with the calls that unwrap the union: which one comes first does not depend on
the place. -/
theorem isMoved_firstVerdict {options : List Node} {v : Value}
    (hu : ∀ option ∈ options, IsMoved outer (unwrap option (some v))) :
    IsMoved outer (firstVerdict unwrap options v) := by
  intro path
  induction options with
  | nil => rfl
  | cons option rest ih =>
    obtain ⟨hoption, hrest⟩ := List.forall_mem_cons.mp hu
    rw [firstVerdict, firstVerdict, hoption path, ih hrest]
    simp only [map_bind, bind_map_left]
    refine bind_congr fun verdict => ?_
    rw [Verdict.isEmpty_issues_under]
    split <;> rfl

/-- What the rule decides is moved with the judgements that it is given. -/
theorem isMoved_ruleOf {node : Node} {value : Option Value}
    (he : ∀ node value, IsMoved outer (enter node value))
    (hu : ∀ call, Unwraps call (node, value) → IsMoved outer (unwrap call.1 call.2))
    (hf : ∀ ref, IsMoved outer (follow ref value)) :
    IsMoved outer (ruleOf enter unwrap follow node value) := by
  cases value with
  | none =>
    cases node with
    | lazy ref => exact hf ref
    | _ => exact fun _ => rfl
  | some v =>
    cases node with
    | lazy ref => exact hf ref
    | optional inner => exact hu (inner, some v) .optional
    | nullable inner =>
      by_cases hn : v = .null
      · subst hn
        exact fun _ => rfl
      · intro path
        rw [ruleOf_nullable hn, ruleOf_nullable hn]
        exact hu (inner, some v) (.nullable hn) path
    | union options => exact isMoved_firstVerdict fun o ho => hu (o, some v) (.option ho)
    | object nodes required =>
      intro path
      rw [ruleOf, ruleOf]
      cases hv : v.entries? with
      | none => rfl
      | some entries =>
        simp only [properties_append he, map_bind, bind_map_left]
        rfl
    | array element =>
      intro path
      rw [ruleOf, ruleOf]
      cases hv : listItems? v with
      | none => rfl
      | some items =>
        simp only [elements_append he, map_bind, bind_map_left]
        rfl
    | string checks => exact isMoved_string checks v
    | number => exact isMoved_number v
    | boolean => exact isMoved_boolean v
    | enum values =>
      intro path
      rw [ruleOf, ruleOf]
      split
      · rfl
      · exact isMoved_rejectWith v _ path
    | literal allowed =>
      intro path
      rw [ruleOf, ruleOf]
      split
      · rfl
      · exact isMoved_rejectWith v _ path
    | _ => exact fun _ => rfl

/-- Judgements that are given by the rule are moved with those that they are given from, apart from
the nodes that they unwrap. -/
theorem isMoved_of_rule {judge : Judge} {value : Option Value}
    (hj : ∀ node path, judge node value path = ruleOf enter judge follow node value path)
    (he : ∀ node value, IsMoved outer (enter node value))
    (hf : ∀ ref, IsMoved outer (follow ref value)) (node : Node) :
    IsMoved outer (judge node value) := by
  induction hs : sizeOf node using Nat.strong_induction_on generalizing node with
  | h n ih =>
    intro path
    rw [hj, hj]
    refine isMoved_ruleOf he (fun call hu => ?_) hf path
    have hsize := hu.sizeOf_lt
    obtain ⟨inner, v⟩ := call
    obtain rfl : v = value := by cases hu <;> rfl
    exact ih (sizeOf inner) (hs ▸ hsize) inner rfl

end Rules

variable {registry : Registry} {outer : Path}

/-- A level is moved with what is below it. -/
theorem isMoved_level {descend : Judge} (hd : ∀ node value, IsMoved outer (descend node value))
    (fuel : Nat) (pending : List Ref) (node : Node) (value : Option Value) :
    IsMoved outer (level registry descend fuel pending node value) := by
  induction fuel generalizing pending node with
  | zero =>
    exact isMoved_of_rule (fun node path => level_eq node value path) hd
      (fun ref => isMoved_fail .endless) node
  | succ fuel ih =>
    refine isMoved_of_rule (fun node path => level_eq node value path) hd (fun ref => ?_) node
    by_cases hm : ref ∈ pending
    · simp only [level_lazy value _ hm]
      exact isMoved_bind _ fun body => ih (pending.erase ref) body
    · simp only [level, step, if_neg hm]
      exact isMoved_fail .endless

/-- Validation within bounds is moved. -/
theorem isMoved_within (refs : List Ref) (depth : Nat) (node : Node) (value : Option Value) :
    IsMoved outer (within registry refs depth node value) := by
  induction depth generalizing node value with
  | zero => exact isMoved_level (fun _ _ => isMoved_fail .endless) _ _ node value
  | succ depth ih => exact isMoved_level ih _ _ node value

/-- Validation further inside is validation at the place itself, seen from further outside. -/
theorem validateAt_append (registry : Registry) (node : Node) (value : Option Value)
    (outer path : Path) : validateAt registry node value (outer ++ path) =
      Verdict.under outer <$> validateAt registry node value path :=
  isMoved_within _ _ node value path

/-- Validation at a place ends with what validation alone ends with, seen from further outside. -/
theorem validateAt_eq_ok_of_validate {node : Node} {value : Option Value} {verdict : Verdict}
    (h : (validate registry node value).outcome = .ok verdict) (path : Path) :
    (validateAt registry node value path).outcome = .ok (verdict.under path) := by
  rw [← List.append_nil path, validateAt_append, List.append_nil, map_eq_pure_bind]
  exact Traced.bind_eq_ok.mpr ⟨verdict, h, rfl⟩

/-- Validation alone ends where validation at a place does. -/
theorem exists_validate_eq_ok {node : Node} {value : Option Value} {path : Path} {verdict : Verdict}
    (h : (validateAt registry node value path).outcome = .ok verdict) :
    ∃ alone, (validate registry node value).outcome = .ok alone := by
  rw [← List.append_nil path, validateAt_append, map_eq_pure_bind] at h
  obtain ⟨alone, ha, -⟩ := Traced.bind_eq_ok.mp h
  exact ⟨alone, ha⟩

/-- A part of a value that is validated for the whole: the step to it and the call about it. -/
abbrev Part := Step × Call

/-- The parts of a value that an object or a list is decided by, in their order: the declared
properties of a mapping, which may be absent, or the items of a list. -/
def inside? (node : Node) (v : Value) : Option (List Part) :=
  match node with
  | .object nodes _ => v.entries?.map fun entries =>
    nodes.map fun e => (.key e.1, e.2, Entries.find? e.1 entries)
  | .array element => (listItems? v).map fun items =>
    items.zipIdx.map fun p => (.index p.2, element, some p.1)
  | _ => none

/-- Each of some parts, validated alone, ends with its verdict. -/
def AreJudged (registry : Registry) (parts : List Part) (alone : Part → Verdict) : Prop :=
  ∀ part ∈ parts, (validate registry part.2.1 part.2.2).outcome = .ok (alone part)

section Parts

variable {node : Node} {v : Value} {path : Path} {verdict : Verdict} {parts : List Part}
  {alone : Part → Verdict}

/-- Only a mapping that an object describes and a list that is described as one have such parts. -/
theorem inside?_eq_some : inside? node v = some parts ↔
    (∃ nodes required entries, node = .object nodes required ∧ v.entries? = some entries ∧
      parts = nodes.map fun e => (.key e.1, e.2, Entries.find? e.1 entries)) ∨
    ∃ element items, node = .array element ∧ listItems? v = some items ∧
      parts = items.zipIdx.map fun p => (.index p.2, element, some p.1) := by
  constructor
  · intro h
    cases node with
    | object nodes required =>
      obtain ⟨entries, hv, rfl⟩ := Option.map_eq_some_iff.mp h
      exact .inl ⟨nodes, required, entries, rfl, hv, rfl⟩
    | array element =>
      obtain ⟨items, hv, rfl⟩ := Option.map_eq_some_iff.mp h
      exact .inr ⟨element, items, rfl, hv, rfl⟩
    | _ => simp [inside?] at h
  · rintro (⟨nodes, required, entries, rfl, hv, rfl⟩ | ⟨element, items, rfl, hv, rfl⟩)
    · exact Option.map_eq_some_iff.mpr ⟨entries, hv, rfl⟩
    · exact Option.map_eq_some_iff.mpr ⟨items, hv, rfl⟩

/-- The parts are called for. -/
theorem enters_of_mem_inside? (hp : inside? node v = some parts) {part : Part} (hm : part ∈ parts) :
    Enters part.2 (node, some v) := by
  rcases inside?_eq_some.mp hp with
    ⟨nodes, required, entries, rfl, hv, rfl⟩ | ⟨element, items, rfl, hv, rfl⟩
  · obtain ⟨e, he, rfl⟩ := List.mem_map.mp hm
    exact .property hv he
  · obtain ⟨p, hi, rfl⟩ := List.mem_map.mp hm
    exact .element hv (List.fst_mem_of_mem_zipIdx hi)

/-- The steps to the parts differ when the declared keys do. -/
theorem nodup_steps (hk : node.HasDifferentKeys) (hp : inside? node v = some parts) :
    (parts.map Prod.fst).Nodup := by
  rcases inside?_eq_some.mp hp with
    ⟨nodes, required, entries, rfl, hv, rfl⟩ | ⟨element, items, rfl, hv, rfl⟩
  · rw [List.map_map]
    refine List.pairwise_map.mpr ((List.pairwise_map.mp (hk nodes required rfl)).imp ?_)
    intro e f hd he
    obtain he : e.1 = f.1 := Step.key.inj he
    simp [he] at hd
  · have hi : (items.zipIdx.map Prod.snd).Nodup := by
      rw [List.zipIdx_map_snd]
      exact List.nodup_range'
    rw [List.map_map]
    exact List.pairwise_map.mpr ((List.pairwise_map.mp hi).imp fun hd he => hd (Step.index.inj he))

/-- A whole is derived when all its parts are, and its issues are theirs. -/
theorem derives_whole (hp : inside? node v = some parts) {verdicts : Part → Verdict}
    (h : ∀ part ∈ parts,
      Derives registry part.2.1 part.2.2 (path ++ [part.1]) (verdicts part)) :
    ∃ whole, Derives registry node (some v) path whole ∧
      whole.issues = parts.flatMap fun part => (verdicts part).issues := by
  rcases inside?_eq_some.mp hp with
    ⟨nodes, required, entries, rfl, hv, rfl⟩ | ⟨element, items, rfl, hv, rfl⟩
  · refine ⟨_, .object (fun e => verdicts (.key e.1, e.2, Entries.find? e.1 entries)) hv
      fun e he => h _ (List.mem_map_of_mem he), ?_⟩
    rw [List.flatMap_map]
    rfl
  · refine ⟨_, .array (fun p => verdicts (.index p.2, element, some p.1)) hv
      fun p hi => h _ (List.mem_map_of_mem hi), ?_⟩
    rw [List.flatMap_map]
    rfl

/-- Where a whole is derived, each of its parts is. -/
theorem exists_derives_part (hp : inside? node v = some parts)
    (h : Derives registry node (some v) path verdict) {part : Part} (hm : part ∈ parts) :
    ∃ own, Derives registry part.2.1 part.2.2 (path ++ [part.1]) own := by
  rcases inside?_eq_some.mp hp with
    ⟨nodes, required, entries, rfl, hv, rfl⟩ | ⟨element, items, rfl, hv, rfl⟩
  · obtain ⟨verdicts, -, judged⟩ := (derives_object hv).mp h
    obtain ⟨e, he, rfl⟩ := List.mem_map.mp hm
    exact ⟨verdicts e, judged e he⟩
  · obtain ⟨verdicts, -, judged⟩ := (derives_array hv).mp h
    obtain ⟨p, hi, rfl⟩ := List.mem_map.mp hm
    exact ⟨verdicts p, judged p hi⟩

/-- The issues of a whole are those of its parts, each validated alone and seen from one step
further outside. -/
theorem issues_eq_flatMap (hp : inside? node v = some parts)
    (h : (validateAt registry node (some v) path).outcome = .ok verdict)
    (ha : AreJudged registry parts alone) :
    verdict.issues = parts.flatMap fun part => ((alone part).under (path ++ [part.1])).issues := by
  obtain ⟨whole, hd, hi⟩ := derives_whole hp fun part hm =>
    derives_of_validateAt (validateAt_eq_ok_of_validate (ha part hm) (path ++ [part.1]))
  rw [(derives_of_validateAt h).unique hd, hi]

/-- What is wrong below one of several steps is what is wrong with the part there. -/
theorem filter_isBelow_flatMap (hd : (parts.map Prod.fst).Nodup) (alone : Part → Verdict)
    (path : Path) {part : Part} (hm : part ∈ parts) :
    (parts.flatMap fun other => ((alone other).under (path ++ [other.1])).issues).filter
        (Issue.isBelow (path ++ [part.1])) =
      ((alone part).under (path ++ [part.1])).issues := by
  obtain ⟨front, back, rfl⟩ := List.append_of_mem hm
  rw [List.map_append, List.map_cons, List.nodup_middle, List.nodup_cons, List.mem_append,
    not_or] at hd
  have elsewhere : ∀ others : List Part, part.1 ∉ others.map Prod.fst →
      (others.flatMap fun other => ((alone other).under (path ++ [other.1])).issues).filter
        (Issue.isBelow (path ++ [part.1])) = [] := by
    intro others hn
    rw [List.filter_flatMap, List.flatMap_eq_nil_iff]
    intro other ho
    refine Verdict.filter_isBelow_under_of_ne (fun he => hn ?_) path (alone other)
    exact he ▸ List.mem_map_of_mem ho
  rw [List.flatMap_append, List.flatMap_cons, List.filter_append, List.filter_append,
    elsewhere front hd.1.1, elsewhere back hd.1.2, Verdict.filter_isBelow_under, List.nil_append,
    List.append_nil]

/-- A whole ends exactly where all its parts do, each validated alone. -/
theorem exists_verdict_iff_areJudged (hc : registry.IsClosed) (hv : v.isFinite = true)
    (hp : inside? node v = some parts) (path : Path) :
    (∃ verdict, (validateAt registry node (some v) path).outcome = .ok verdict) ↔
      ∃ alone, AreJudged registry parts alone := by
  have hvalue : ∀ w ∈ some v, w.isFinite = true := by
    rintro w ⟨⟩
    exact hv
  have hpart : ∀ part ∈ parts, ∀ w ∈ part.2.2, w.isFinite = true := by
    intro part hm
    have hcall : Calls registry part.2 (node, some v) := .enter (enters_of_mem_inside? hp hm)
    exact isFinite_of_calls hcall hvalue
  constructor
  · rintro ⟨verdict, h⟩
    refine ⟨fun part => verdictOf (validate registry part.2.1 part.2.2), fun part hm => ?_⟩
    obtain ⟨own, hown⟩ := exists_derives_part hp (derives_of_validateAt h) hm
    obtain ⟨alone, ha⟩ := exists_validate_eq_ok (validateAt_of_derives hc hown (hpart part hm))
    exact outcome_eq_verdictOf ha
  · rintro ⟨alone, ha⟩
    obtain ⟨whole, hd, -⟩ := derives_whole hp fun part hm =>
      derives_of_validateAt (validateAt_eq_ok_of_validate (ha part hm) (path ++ [part.1]))
    exact ⟨whole, validateAt_of_derives hc hd hvalue⟩

end Parts

end Validation

open Validation

/-- Validation is compositional in the place of a value. -/
structure Registry.IsCompositional (registry : Registry) : Prop where
  /-- With a longer path in front validation ends as it does without, with the same data or the same
  error, and with the same issues, which have that path in front. -/
  moved : ∀ node value outer path, validateAt registry node value (outer ++ path) =
    Verdict.under outer <$> validateAt registry node value path
  /-- The issues of an object or a list are those of its parts in their order. Each part is
  validated alone, and the step to it is put in front. -/
  gathered : ∀ node v path parts verdict alone, inside? node v = some parts →
    (validateAt registry node (some v) path).outcome = .ok verdict →
    AreJudged registry parts alone →
    verdict.issues = parts.flatMap fun part => ((alone part).under (path ++ [part.1])).issues
  /-- Below the step to a part there are exactly the issues of that part. -/
  below : ∀ node v path parts verdict alone, node.HasDifferentKeys → inside? node v = some parts →
    (validateAt registry node (some v) path).outcome = .ok verdict →
    AreJudged registry parts alone → ∀ part ∈ parts,
      verdict.issues.filter (Issue.isBelow (path ++ [part.1])) =
        ((alone part).under (path ++ [part.1])).issues
  /-- An object or a list ends exactly where all its parts do, about a value that is not inside
  itself. -/
  ends : registry.IsClosed → ∀ node v path parts, v.isFinite = true → inside? node v = some parts →
    ((∃ verdict, (validateAt registry node (some v) path).outcome = .ok verdict) ↔
      ∃ alone, AreJudged registry parts alone)

/-- The place of a value shows in the paths of issues only, and what is wrong with a whole is put
together from what is wrong with its parts. -/
theorem validation_isCompositional (registry : Registry) : registry.IsCompositional where
  moved := validateAt_append registry
  gathered _ _ _ _ _ _ hp h ha := issues_eq_flatMap hp h ha
  below _ _ path _ _ alone hk hp h ha _ hm := by
    rw [issues_eq_flatMap hp h ha]
    exact filter_isBelow_flatMap (nodup_steps hk hp) alone path hm
  ends hc _ _ path _ hv hp := exists_verdict_iff_areJudged hc hv hp path

/-- A branch has a name and may have twigs, which are branches. -/
def branchNode : Node :=
  .object [("name", .string []), ("twigs", .optional (.array (.lazy ⟨"Branch", 0⟩)))] ["name"]

/-- Branches, which refer to themselves. -/
def branchRegistry : Registry := .ofEntries [] [("Branch", branchNode)]

/-- A branch without a name. Of its twigs the first has a wrong name and the last is none. -/
def branchValue : Value :=
  .map [("twigs", .list [.map [("name", .int 1)], .map [("name", "a")], .null])]

/-- The parts of the branch: its name, which is lacking, and its twigs. -/
def branchParts : List Part :=
  [(.key "name", .string [], none),
    (.key "twigs", .optional (.array (.lazy ⟨"Branch", 0⟩)),
      some (.list [.map [("name", .int 1)], .map [("name", "a")], .null]))]

/-- What is wrong below the twigs of a branch further inside is what is wrong with the twigs, and
both of its parts are judged alone. -/
theorem validation_isCompositional_branch :
    branchRegistry.IsCompositional ∧ branchRegistry.IsClosed ∧ branchValue.isFinite = true ∧
    branchNode.HasDifferentKeys ∧ inside? branchNode branchValue = some branchParts ∧
    (∃ alone, AreJudged branchRegistry branchParts alone) ∧
    ∃ verdict, (validateAt branchRegistry branchNode (some branchValue) [.index 7]).outcome =
        .ok verdict ∧
      verdict.issues.filter (Issue.isBelow [.index 7, .key "twigs"]) =
        [⟨[.index 7, .key "twigs", .index 0, .key "name"], "Expected string, received int"⟩,
          ⟨[.index 7, .key "twigs", .index 2], "Expected object, received null"⟩] := by
  have composed := validation_isCompositional branchRegistry
  have hc : branchRegistry.IsClosed := Registry.ofEntries_isClosed [] _
  have different : branchNode.HasDifferentKeys := by
    rintro nodes required ⟨⟩
    simp +decide [KeysDiffer]
  obtain ⟨alone, judged⟩ :=
    (composed.ends hc branchNode branchValue [.index 7] branchParts rfl rfl).mp ⟨_, rfl⟩
  refine ⟨composed, hc, rfl, different, rfl, ⟨alone, judged⟩, _, rfl, ?_⟩
  have last : ∀ part, branchParts.getLast? = some part → part ∈ branchParts :=
    fun _ => List.mem_of_getLast?
  have twigs := Except.ok.inj (judged _ (last _ rfl))
  have below := composed.below branchNode branchValue [.index 7] branchParts _ alone different rfl
    rfl judged _ (last _ rfl)
  rw [← twigs] at below
  exact below

end ZodSchemas
