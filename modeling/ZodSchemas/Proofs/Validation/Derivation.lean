import ZodSchemas.Proofs.Validation.Recursion

/-!
# Derivations of verdicts

The rules of validation, one for each way in which a verdict comes about. What
holds of the verdicts that a rule starts from is carried to its own verdict, so
every law about verdicts is an induction on how they are derived. At most one
verdict is derived about a call. The main statement is that validation ends
with exactly the verdicts that are derived; that a verdict of validation is
derived needs no condition on references or on the value.
-/

namespace ZodSchemas

/-- A node that rejects the absence of a value, whatever stands in it. -/
def Node.needsValue : Node → Bool
  | .optional _ | .unknown | .lazy _ | .plain => false
  | _ => true

/-- A node without other nodes in it that looks at the value. -/
def Node.isLeaf : Node → Bool
  | .string _ | .number | .boolean | .enum _ | .literal _ | .never => true
  | _ => false

namespace Verdict

/-- The verdict about a mapping, given those about its declared properties. -/
def ofProperties (nodes : Entries Node) (verdicts : Key × Node → Verdict) : Verdict where
  data := some (.map (nodes.filterMap fun e => (verdicts e).data.map fun v => (e.1, v)))
  issues := nodes.flatMap fun e => (verdicts e).issues

/-- The verdict about a list, given those about its items with their indexes. -/
def ofElements (items : List Value) (verdicts : Value × Nat → Verdict) : Verdict where
  data := some (.list (items.zipIdx.filterMap fun p => (verdicts p).data))
  issues := items.zipIdx.flatMap fun p => (verdicts p).issues

/-- The verdict about a mapping depends on those about its declared properties. -/
theorem ofProperties_congr {nodes : Entries Node} {verdicts others : Key × Node → Verdict}
    (h : ∀ e ∈ nodes, verdicts e = others e) :
    ofProperties nodes verdicts = ofProperties nodes others := by
  rw [ofProperties, ofProperties, List.filterMap_congr fun e he => by rw [h e he],
    List.flatMap_congr fun e he => by rw [h e he]]

/-- The verdict about a list depends on those about its items. -/
theorem ofElements_congr {items : List Value} {verdicts others : Value × Nat → Verdict}
    (h : ∀ p ∈ items.zipIdx, verdicts p = others p) :
    ofElements items verdicts = ofElements items others := by
  rw [ofElements, ofElements, List.filterMap_congr fun p hp => by rw [h p hp],
    List.flatMap_congr fun p hp => by rw [h p hp]]

end Verdict

namespace Validation

/-- No call is judged. -/
def refuse : Judge := fun _ _ _ => Traced.fail .noRule

/-- The verdicts that the rules of validation lead to. -/
inductive Derives (registry : Registry) : Node → Option Value → Path → Verdict → Prop where
  /-- Anything is accepted, and so is its absence. -/
  | unknown {value : Option Value} {path : Path} :
      Derives registry .unknown value path (.accept value)
  /-- A reference decides as its body does. -/
  | lazy {ref : Ref} {body : Node} {value : Option Value} {path : Path} {verdict : Verdict}
      (found : registry.body ref = .ok body) (judged : Derives registry body value path verdict) :
      Derives registry (.lazy ref) value path verdict
  /-- What is optional may be absent. -/
  | absent {inner : Node} {path : Path} :
      Derives registry (.optional inner) none path (.accept none)
  /-- What is needed may not. -/
  | required {node : Node} {path : Path} (needed : node.needsValue = true) :
      Derives registry node none path (.reject none path "Required")
  /-- A node without others in it decides by itself. -/
  | leaf {node : Node} {v : Value} {path : Path} {verdict : Verdict} (simple : node.isLeaf = true)
      (ruled : (rule registry refuse node (some v) path).outcome = .ok verdict) :
      Derives registry node (some v) path verdict
  /-- What is optional is judged when it is present. -/
  | optional {inner : Node} {v : Value} {path : Path} {verdict : Verdict}
      (judged : Derives registry inner (some v) path verdict) :
      Derives registry (.optional inner) (some v) path verdict
  /-- What is nullable may be null. -/
  | null {inner : Node} {path : Path} :
      Derives registry (.nullable inner) (some .null) path (.accept (some .null))
  /-- What is nullable is judged when it is not null. -/
  | nullable {inner : Node} {v : Value} {path : Path} {verdict : Verdict} (present : v ≠ .null)
      (judged : Derives registry inner (some v) path verdict) :
      Derives registry (.nullable inner) (some v) path verdict
  /-- The first option without issues decides. -/
  | option {options front back : List Node} {option : Node} {v : Value} {path : Path}
      {verdict : Verdict} (verdicts : Node → Verdict) (split : options = front ++ option :: back)
      (judged : ∀ other ∈ front, Derives registry other (some v) path (verdicts other))
      (faulty : ∀ other ∈ front, (verdicts other).issues ≠ [])
      (chosen : Derives registry option (some v) path verdict) (valid : verdict.issues = []) :
      Derives registry (.union options) (some v) path verdict
  /-- There may be none. -/
  | noOption {options : List Node} {v : Value} {path : Path} (verdicts : Node → Verdict)
      (judged : ∀ other ∈ options, Derives registry other (some v) path (verdicts other))
      (faulty : ∀ other ∈ options, (verdicts other).issues ≠ []) :
      Derives registry (.union options) (some v) path
        (.reject (some v) path "Invalid input: no union option matched")
  /-- A mapping is judged property by property. -/
  | object {nodes : Entries Node} {required : List Key} {v : Value} {entries : Entries Value}
      {path : Path} (verdicts : Key × Node → Verdict) (mapping : v.entries? = some entries)
      (judged : ∀ e ∈ nodes,
        Derives registry e.2 (Entries.find? e.1 entries) (path ++ [.key e.1]) (verdicts e)) :
      Derives registry (.object nodes required) (some v) path (.ofProperties nodes verdicts)
  /-- Nothing else is an object. -/
  | noMapping {nodes : Entries Node} {required : List Key} {v : Value} {path : Path}
      (other : v.entries? = none) :
      Derives registry (.object nodes required) (some v) path
        (.reject (some v) path (expected "object" v))
  /-- A list is judged item by item. -/
  | array {element : Node} {v : Value} {items : List Value} {path : Path}
      (verdicts : Value × Nat → Verdict) (listed : listItems? v = some items)
      (judged : ∀ p ∈ items.zipIdx,
        Derives registry element (some p.1) (path ++ [.index p.2]) (verdicts p)) :
      Derives registry (.array element) (some v) path (.ofElements items verdicts)
  /-- Nothing else is a list. -/
  | noList {element : Node} {v : Value} {path : Path} (other : listItems? v = none) :
      Derives registry (.array element) (some v) path
        (.reject (some v) path (expected "array" v))

section Inversion

variable {registry : Registry} {inner : Node} {value : Option Value} {v : Value} {path : Path}
  {verdict : Verdict}

/-- Where anything is accepted. -/
theorem derives_unknown :
    Derives registry .unknown value path verdict ↔ verdict = .accept value := by
  constructor
  · intro h
    cases h with
    | unknown => rfl
    | required needed => cases needed
    | leaf simple => cases simple
  · rintro rfl
    exact .unknown

/-- Where something is needed. -/
theorem derives_none {node : Node} (hn : node.needsValue = true) :
    Derives registry node none path verdict ↔ verdict = .reject none path "Required" := by
  constructor
  · intro h
    cases h with
    | unknown => cases hn
    | lazy => cases hn
    | absent => cases hn
    | required => rfl
  · rintro rfl
    exact .required hn

/-- A reference. -/
theorem derives_lazy {ref : Ref} : Derives registry (.lazy ref) value path verdict ↔
    ∃ body, registry.body ref = .ok body ∧ Derives registry body value path verdict := by
  constructor
  · intro h
    cases h with
    | lazy found judged => exact ⟨_, found, judged⟩
    | required needed => cases needed
    | leaf simple => cases simple
  · rintro ⟨body, found, judged⟩
    exact .lazy found judged

/-- What is optional and absent. -/
theorem derives_optional_none : Derives registry (.optional inner) none path verdict ↔
    verdict = .accept none := by
  constructor
  · intro h
    cases h with
    | absent => rfl
    | required needed => cases needed
  · rintro rfl
    exact .absent

/-- What is optional and present. -/
theorem derives_optional : Derives registry (.optional inner) (some v) path verdict ↔
    Derives registry inner (some v) path verdict := by
  constructor
  · intro h
    cases h with
    | optional judged => exact judged
    | leaf simple => cases simple
  · exact .optional

/-- What is nullable and null. -/
theorem derives_null : Derives registry (.nullable inner) (some .null) path verdict ↔
    verdict = .accept (some .null) := by
  constructor
  · intro h
    cases h with
    | null => rfl
    | nullable present => exact absurd rfl present
    | leaf simple => cases simple
  · rintro rfl
    exact .null

/-- What is nullable and not null. -/
theorem derives_nullable (hv : v ≠ .null) :
    Derives registry (.nullable inner) (some v) path verdict ↔
    Derives registry inner (some v) path verdict := by
  constructor
  · intro h
    cases h with
    | null => exact absurd rfl hv
    | nullable _ judged => exact judged
    | leaf simple => cases simple
  · exact .nullable hv

/-- A union: an option decides without issues, or all of them have some. -/
theorem cases_of_union {options : List Node}
    (h : Derives registry (.union options) (some v) path verdict) :
    (verdict.issues = [] ∧ ∃ option ∈ options, Derives registry option (some v) path verdict) ∨
    (verdict.issues ≠ [] ∧ ∀ option ∈ options, ∃ faulty,
      Derives registry option (some v) path faulty ∧ faulty.issues ≠ []) := by
  cases h with
  | option verdicts split _ _ chosen valid => exact .inl ⟨valid, _, by simp [split], chosen⟩
  | noOption verdicts judged faulty =>
    exact .inr ⟨by simp [Verdict.reject], fun option ho => ⟨_, judged option ho, faulty option ho⟩⟩
  | leaf simple => cases simple

/-- A mapping of properties. -/
theorem derives_object {nodes : Entries Node} {required : List Key} {entries : Entries Value}
    (hv : v.entries? = some entries) :
    Derives registry (.object nodes required) (some v) path verdict ↔
      ∃ verdicts : Key × Node → Verdict, verdict = .ofProperties nodes verdicts ∧ ∀ e ∈ nodes,
        Derives registry e.2 (Entries.find? e.1 entries) (path ++ [.key e.1]) (verdicts e) := by
  constructor
  · intro h
    cases h with
    | object verdicts mapping judged =>
      obtain rfl := Option.some.inj (hv.symm.trans mapping)
      exact ⟨verdicts, rfl, judged⟩
    | noMapping other => simp [hv] at other
    | leaf simple => cases simple
  · rintro ⟨verdicts, rfl, judged⟩
    exact .object verdicts hv judged

/-- What is no mapping. -/
theorem derives_object_of_none {nodes : Entries Node} {required : List Key}
    (hv : v.entries? = none) : Derives registry (.object nodes required) (some v) path verdict ↔
      verdict = .reject (some v) path (expected "object" v) := by
  constructor
  · intro h
    cases h with
    | object _ mapping => simp [hv] at mapping
    | noMapping => rfl
    | leaf simple => cases simple
  · rintro rfl
    exact .noMapping hv

/-- A list of elements. -/
theorem derives_array {element : Node} {items : List Value} (hv : listItems? v = some items) :
    Derives registry (.array element) (some v) path verdict ↔
      ∃ verdicts : Value × Nat → Verdict, verdict = .ofElements items verdicts ∧
        ∀ p ∈ items.zipIdx, Derives registry element (some p.1) (path ++ [.index p.2])
          (verdicts p) := by
  constructor
  · intro h
    cases h with
    | array verdicts listed judged =>
      obtain rfl := Option.some.inj (hv.symm.trans listed)
      exact ⟨verdicts, rfl, judged⟩
    | noList other => simp [hv] at other
    | leaf simple => cases simple
  · rintro ⟨verdicts, rfl, judged⟩
    exact .array verdicts hv judged

/-- What is no list. -/
theorem derives_array_of_none {element : Node} (hv : listItems? v = none) :
    Derives registry (.array element) (some v) path verdict ↔
      verdict = .reject (some v) path (expected "array" v) := by
  constructor
  · intro h
    cases h with
    | array _ listed => simp [hv] at listed
    | noList => rfl
    | leaf simple => cases simple
  · rintro rfl
    exact .noList hv

/-- A node without others in it. -/
theorem derives_leaf {node : Node} (hn : node.isLeaf = true) :
    Derives registry node (some v) path verdict ↔
      (rule registry refuse node (some v) path).outcome = .ok verdict := by
  constructor
  · intro h
    cases h with
    | leaf _ ruled => exact ruled
    | _ => cases hn
  · exact .leaf hn

/-- At most one verdict is derived. -/
theorem Derives.unique {node : Node} {first second : Verdict}
    (hf : Derives registry node value path first) (hs : Derives registry node value path second) :
    first = second := by
  induction hf generalizing second with
  | unknown => exact (derives_unknown.mp hs).symm
  | lazy found _ ih =>
    obtain ⟨body, hb, hs⟩ := derives_lazy.mp hs
    obtain rfl := Except.ok.inj (found.symm.trans hb)
    exact ih hs
  | absent => exact (derives_optional_none.mp hs).symm
  | required needed => exact ((derives_none needed).mp hs).symm
  | leaf simple ruled => exact Except.ok.inj (ruled.symm.trans ((derives_leaf simple).mp hs))
  | optional _ ih => exact ih (derives_optional.mp hs)
  | null => exact (derives_null.mp hs).symm
  | nullable present _ ih => exact ih ((derives_nullable present).mp hs)
  | @option options front back option v path verdict verdicts split _ faulty _ valid ihf iho =>
    cases hs with
    | leaf simple => cases simple
    | noOption others judged invalid =>
      have hm : option ∈ options := by simp [split]
      rw [iho (judged option hm)] at valid
      exact absurd valid (invalid option hm)
    | @option _ before after other _ _ _ others cut judged invalid chosen accepted =>
      -- Neither of the two chosen options stands in front of the other.
      rcases List.append_eq_append_iff.mp (split.symm.trans cut) with ⟨gap, rfl, h⟩ | ⟨gap, rfl, h⟩
      · cases gap with
        | nil =>
          obtain rfl : option = other := (List.cons.inj h).1
          exact iho chosen
        | cons _ gap =>
          obtain ⟨rfl, -⟩ := List.cons.inj h
          have hm : option ∈ front ++ option :: gap := by simp
          rw [iho (judged option hm)] at valid
          exact absurd valid (invalid option hm)
      · cases gap with
        | nil =>
          obtain rfl : other = option := (List.cons.inj h).1
          exact iho chosen
        | cons _ gap =>
          obtain ⟨rfl, -⟩ := List.cons.inj h
          have hm : other ∈ before ++ other :: gap := by simp
          rw [← ihf other hm chosen] at accepted
          exact absurd accepted (faulty other hm)
  | @noOption options v path verdicts _ faulty ih =>
    cases hs with
    | leaf simple => cases simple
    | noOption => rfl
    | @option _ before after other _ _ _ others cut judged invalid chosen accepted =>
      have hm : other ∈ options := by simp [cut]
      rw [← ih other hm chosen] at accepted
      exact absurd accepted (faulty other hm)
  | object verdicts mapping _ ih =>
    obtain ⟨others, rfl, judged⟩ := (derives_object mapping).mp hs
    exact Verdict.ofProperties_congr fun e he => ih e he (judged e he)
  | noMapping other => exact ((derives_object_of_none other).mp hs).symm
  | array verdicts listed _ ih =>
    obtain ⟨others, rfl, judged⟩ := (derives_array listed).mp hs
    exact Verdict.ofElements_congr fun p hp => ih p hp (judged p hp)
  | noList other => exact ((derives_array_of_none other).mp hs).symm

end Inversion

section Parts

variable {judge : Judge} {path : Path}

/-- The verdict that a judgement ends with, if it does. -/
def verdictOf (judging : Judging) : Verdict :=
  match judging.outcome with
  | .ok verdict => verdict
  | .error _ => .accept none

/-- A judgement that ends with a verdict ends with that one. -/
theorem verdictOf_eq {judging : Judging} {verdict : Verdict} (h : judging.outcome = .ok verdict) :
    verdictOf judging = verdict := by
  simp only [verdictOf, h]

/-- What a judgement ends with is its verdict. -/
theorem outcome_eq_verdictOf {judging : Judging} {verdict : Verdict}
    (h : judging.outcome = .ok verdict) : judging.outcome = .ok (verdictOf judging) := by
  rw [verdictOf_eq h, h]

/-- Properties are judged when each of them is. -/
theorem properties_of_forall {entries : Entries Value} {nodes : Entries Node}
    {verdicts : Key × Node → Verdict}
    (h : ∀ e ∈ nodes, (judge e.2 (Entries.find? e.1 entries) (path ++ [.key e.1])).outcome =
      .ok (verdicts e)) :
    (properties judge entries path nodes).outcome =
      .ok (nodes.filterMap fun e => (verdicts e).data.map fun v => (e.1, v),
        nodes.flatMap fun e => (verdicts e).issues) := by
  induction nodes with
  | nil => rfl
  | cons e rest ih =>
    obtain ⟨hfirst, hrest⟩ := List.forall_mem_cons.mp h
    rw [properties]
    refine Traced.bind_eq_ok.mpr ⟨_, hfirst, Traced.bind_eq_ok.mpr ⟨_, ih hrest, ?_⟩⟩
    cases hd : (verdicts e).data <;> simp [hd]

/-- Where properties are judged, each of them is. -/
theorem exists_of_properties {entries data : Entries Value} {nodes : Entries Node}
    {issues : List Issue} (h : (properties judge entries path nodes).outcome = .ok (data, issues)) :
    ∃ verdicts : Key × Node → Verdict,
      (∀ e ∈ nodes, (judge e.2 (Entries.find? e.1 entries) (path ++ [.key e.1])).outcome =
        .ok (verdicts e)) ∧
      (nodes.filterMap fun e => (verdicts e).data.map fun v => (e.1, v)) = data ∧
      (nodes.flatMap fun e => (verdicts e).issues) = issues := by
  let verdicts (e : Key × Node) : Verdict :=
    verdictOf (judge e.2 (Entries.find? e.1 entries) (path ++ [.key e.1]))
  have judged : ∀ e ∈ nodes, (judge e.2 (Entries.find? e.1 entries) (path ++ [.key e.1])).outcome =
      .ok (verdicts e) := by
    induction nodes generalizing data issues with
    | nil => simp
    | cons e rest ih =>
      rw [properties] at h
      obtain ⟨verdict, hv, h⟩ := Traced.bind_eq_ok.mp h
      obtain ⟨_, hrest, -⟩ := Traced.bind_eq_ok.mp h
      exact List.forall_mem_cons.mpr ⟨outcome_eq_verdictOf hv, ih hrest⟩
  have he := (properties_of_forall judged).symm.trans h
  exact ⟨verdicts, judged, (Prod.mk.inj (Except.ok.inj he)).1, (Prod.mk.inj (Except.ok.inj he)).2⟩

/-- Elements are judged when each of them is. -/
theorem elements_of_forall {element : Node} {index : Nat} {items : List Value}
    {verdicts : Value × Nat → Verdict}
    (h : ∀ p ∈ items.zipIdx index, (judge element (some p.1) (path ++ [.index p.2])).outcome =
      .ok (verdicts p)) :
    (elements judge element path index items).outcome =
      .ok ((items.zipIdx index).filterMap fun p => (verdicts p).data,
        (items.zipIdx index).flatMap fun p => (verdicts p).issues) := by
  induction items generalizing index with
  | nil => rfl
  | cons w rest ih =>
    rw [List.zipIdx_cons] at h ⊢
    obtain ⟨hfirst, hrest⟩ := List.forall_mem_cons.mp h
    rw [elements]
    refine Traced.bind_eq_ok.mpr ⟨_, hfirst, Traced.bind_eq_ok.mpr ⟨_, ih hrest, ?_⟩⟩
    cases hd : (verdicts (w, index)).data <;> simp [hd]

/-- Where elements are judged, each of them is. -/
theorem exists_of_elements {element : Node} {index : Nat} {items data : List Value}
    {issues : List Issue}
    (h : (elements judge element path index items).outcome = .ok (data, issues)) :
    ∃ verdicts : Value × Nat → Verdict,
      (∀ p ∈ items.zipIdx index, (judge element (some p.1) (path ++ [.index p.2])).outcome =
        .ok (verdicts p)) ∧
      ((items.zipIdx index).filterMap fun p => (verdicts p).data) = data ∧
      ((items.zipIdx index).flatMap fun p => (verdicts p).issues) = issues := by
  let verdicts (p : Value × Nat) : Verdict :=
    verdictOf (judge element (some p.1) (path ++ [.index p.2]))
  have judged : ∀ p ∈ items.zipIdx index,
      (judge element (some p.1) (path ++ [.index p.2])).outcome = .ok (verdicts p) := by
    induction items generalizing index data issues with
    | nil => simp
    | cons w rest ih =>
      rw [elements] at h
      obtain ⟨verdict, hv, h⟩ := Traced.bind_eq_ok.mp h
      obtain ⟨_, hrest, -⟩ := Traced.bind_eq_ok.mp h
      rw [List.zipIdx_cons]
      exact List.forall_mem_cons.mpr ⟨outcome_eq_verdictOf hv, ih hrest⟩
  have he := (elements_of_forall judged).symm.trans h
  exact ⟨verdicts, judged, (Prod.mk.inj (Except.ok.inj he)).1, (Prod.mk.inj (Except.ok.inj he)).2⟩

/-- Options in front that have issues are passed over. -/
theorem firstVerdict_append {front back : List Node} {v : Value} {verdicts : Node → Verdict}
    (h : ∀ other ∈ front, (judge other (some v) path).outcome = .ok (verdicts other))
    (hf : ∀ other ∈ front, (verdicts other).issues ≠ []) :
    (firstVerdict judge (front ++ back) v path).outcome =
      (firstVerdict judge back v path).outcome := by
  induction front with
  | nil => rfl
  | cons other rest ih =>
    obtain ⟨hfirst, hrest⟩ := List.forall_mem_cons.mp h
    obtain ⟨hfaulty, hfaulties⟩ := List.forall_mem_cons.mp hf
    rw [List.cons_append, firstVerdict, Traced.outcome_bind, hfirst]
    simp only [Except.bind, List.isEmpty_iff, hfaulty, if_false]
    exact ih hrest hfaulties

/-- Where options are judged, the first without issues decides, or there is none. -/
theorem exists_of_firstVerdict {options : List Node} {v : Value} {verdict : Verdict}
    (h : (firstVerdict judge options v path).outcome = .ok verdict) :
    ∃ (verdicts : Node → Verdict) (front : List Node),
      (∀ other ∈ front, (judge other (some v) path).outcome = .ok (verdicts other)) ∧
      (∀ other ∈ front, (verdicts other).issues ≠ []) ∧
      ((∃ option back, options = front ++ option :: back ∧
          (judge option (some v) path).outcome = .ok verdict ∧ verdict.issues = []) ∨
        options = front ∧
          verdict = .reject (some v) path "Invalid input: no union option matched") := by
  refine ⟨fun other => verdictOf (judge other (some v) path), ?_⟩
  induction options with
  | nil => exact ⟨[], by simp, by simp, .inr ⟨rfl, (Traced.pure_eq_ok.mp h).symm⟩⟩
  | cons option rest ih =>
    obtain ⟨first, hfirst, h⟩ := Traced.bind_eq_ok.mp h
    split at h
    · next he =>
      obtain rfl := Traced.pure_eq_ok.mp h
      exact ⟨[], by simp, by simp, .inl ⟨option, rest, rfl, hfirst, List.isEmpty_iff.mp he⟩⟩
    · next he =>
      obtain ⟨front, hjudged, hfaulty, hends⟩ := ih h
      refine ⟨option :: front, List.forall_mem_cons.mpr ⟨outcome_eq_verdictOf hfirst, hjudged⟩,
        List.forall_mem_cons.mpr ⟨?_, hfaulty⟩, ?_⟩
      · simp only [verdictOf_eq hfirst]
        exact fun hn => he (List.isEmpty_iff.mpr hn)
      · rcases hends with ⟨chosen, back, rfl, hchosen⟩ | ⟨rfl, hreject⟩
        · exact .inl ⟨chosen, back, rfl, hchosen⟩
        · exact .inr ⟨rfl, hreject⟩

end Parts

variable {registry : Registry}

/-- A node without others in it makes no calls. -/
theorem rule_of_isLeaf {node : Node} (h : node.isLeaf = true) (judge other : Judge) (v : Value)
    (path : Path) : rule registry judge node (some v) path =
      rule registry other node (some v) path := by
  cases node with
  | string | number | boolean | enum | literal | never => rfl
  | _ => simp [Node.isLeaf] at h

/-- The rule derives its verdict from derived ones. -/
theorem derives_of_rule {judge : Judge} {node : Node} {value : Option Value} {path : Path}
    {verdict : Verdict}
    (known : ∀ call, Calls registry call (node, value) → ∀ path verdict,
      (judge call.1 call.2 path).outcome = .ok verdict →
        Derives registry call.1 call.2 path verdict)
    (h : (rule registry judge node value path).outcome = .ok verdict) :
    Derives registry node value path verdict := by
  cases value with
  | none =>
    cases node with
    | plain => simp [rule, ruleOf] at h
    | unknown =>
      obtain rfl := Traced.pure_eq_ok.mp h
      exact .unknown
    | optional inner =>
      obtain rfl := Traced.pure_eq_ok.mp h
      exact .absent
    | lazy ref =>
      obtain ⟨body, hb, h⟩ := Traced.bind_eq_ok.mp h
      have hb := Registry.resolve_eq_ok.mp hb
      exact .lazy hb (known _ (.follow hb) path verdict h)
    | _ =>
      obtain rfl := Traced.pure_eq_ok.mp h
      exact .required rfl
  | some v =>
    cases node with
    | plain => simp [rule, ruleOf] at h
    | unknown =>
      obtain rfl := Traced.pure_eq_ok.mp h
      exact .unknown
    | lazy ref =>
      obtain ⟨body, hb, h⟩ := Traced.bind_eq_ok.mp h
      have hb := Registry.resolve_eq_ok.mp hb
      exact .lazy hb (known _ (.follow hb) path verdict h)
    | optional inner => exact .optional (known _ (.unwrap .optional) path verdict h)
    | nullable inner =>
      by_cases hn : v = .null
      · subst hn
        obtain rfl := Traced.pure_eq_ok.mp h
        exact .null
      · rw [rule, ruleOf_nullable hn] at h
        exact .nullable hn (known _ (.unwrap (.nullable hn)) path verdict h)
    | union options =>
      obtain ⟨verdicts, front, hjudged, hfaulty, hends⟩ := exists_of_firstVerdict h
      rcases hends with ⟨option, back, rfl, hchosen, hvalid⟩ | ⟨rfl, rfl⟩
      · refine .option verdicts rfl (fun other ho => ?_) hfaulty ?_ hvalid
        · exact known _ (.unwrap (.option (by simp [ho]))) path _ (hjudged other ho)
        · exact known _ (.unwrap (.option (by simp))) path _ hchosen
      · refine .noOption verdicts (fun other ho => ?_) hfaulty
        exact known _ (.unwrap (.option ho)) path _ (hjudged other ho)
    | object nodes required =>
      rw [rule, ruleOf] at h
      cases hv : v.entries? with
      | none =>
        simp only [hv] at h
        obtain rfl := Traced.pure_eq_ok.mp h
        exact .noMapping hv
      | some entries =>
        simp only [hv] at h
        obtain ⟨⟨data, issues⟩, hp, h⟩ := Traced.bind_eq_ok.mp h
        obtain rfl := Traced.pure_eq_ok.mp h
        obtain ⟨verdicts, hjudged, rfl, rfl⟩ := exists_of_properties hp
        refine .object verdicts hv fun e he => ?_
        exact known _ (.enter (.property hv he)) _ _ (hjudged e he)
    | array element =>
      rw [rule, ruleOf] at h
      cases hv : listItems? v with
      | none =>
        simp only [hv] at h
        obtain rfl := Traced.pure_eq_ok.mp h
        exact .noList hv
      | some items =>
        simp only [hv] at h
        obtain ⟨⟨data, issues⟩, hp, h⟩ := Traced.bind_eq_ok.mp h
        obtain rfl := Traced.pure_eq_ok.mp h
        obtain ⟨verdicts, hjudged, rfl, rfl⟩ := exists_of_elements hp
        refine .array verdicts hv fun p hm => ?_
        exact known _ (.enter (.element hv (List.fst_mem_of_mem_zipIdx hm))) _ _ (hjudged p hm)
    | string | number | boolean | enum | literal | never => exact .leaf rfl h

/-- What the rule leads to is derived. -/
theorem derives_of_yields {node : Node} {value : Option Value} {path : Path} {verdict : Verdict}
    (h : Yields registry node value path verdict) : Derives registry node value path verdict := by
  induction h with
  | rule judge _ decided ih => exact derives_of_rule ih decided

/-- Every verdict of validation is derived. -/
theorem derives_of_validateAt {node : Node} {value : Option Value} {path : Path}
    {verdict : Verdict} (h : (validateAt registry node value path).outcome = .ok verdict) :
    Derives registry node value path verdict :=
  derives_of_yields (yields_of_within h)

/-- Validation ends with every verdict that is derived, about a value that is not inside itself. -/
theorem validateAt_of_derives (hc : registry.IsClosed) {node : Node} {value : Option Value}
    {path : Path} {verdict : Verdict} (h : Derives registry node value path verdict)
    (hv : ∀ v ∈ value, v.isFinite = true) :
    (validateAt registry node value path).outcome = .ok verdict := by
  induction h with
  | unknown => exact (validateAt_eq_ok_iff hc hv).mpr rfl
  | @lazy ref body value path verdict found _ ih =>
    refine (validateAt_eq_ok_iff hc hv).mpr ?_
    exact Traced.bind_eq_ok.mpr ⟨body, Registry.resolve_eq_ok.mpr found, ih hv⟩
  | absent => exact (validateAt_eq_ok_iff hc hv).mpr rfl
  | @required node path needed =>
    refine (validateAt_eq_ok_iff hc hv).mpr ?_
    cases node with
    | optional | unknown | lazy | plain => simp [Node.needsValue] at needed
    | _ => rfl
  | leaf simple ruled =>
    refine (validateAt_eq_ok_iff hc hv).mpr ?_
    rw [rule_of_isLeaf simple _ refuse]
    exact ruled
  | optional _ ih => exact (validateAt_eq_ok_iff hc hv).mpr (ih hv)
  | null => exact (validateAt_eq_ok_iff hc hv).mpr rfl
  | nullable present _ ih =>
    refine (validateAt_eq_ok_iff hc hv).mpr ?_
    rw [rule, ruleOf_nullable present]
    exact ih hv
  | @option options front back option v path verdict verdicts split _ faulty _ valid ihf iho =>
    refine (validateAt_eq_ok_iff hc hv).mpr ?_
    subst split
    refine (firstVerdict_append (fun other ho => ihf other ho hv) faulty).trans ?_
    refine Traced.bind_eq_ok.mpr ⟨verdict, iho hv, ?_⟩
    simp [valid]
  | @noOption options v path verdicts _ faulty ih =>
    refine (validateAt_eq_ok_iff hc hv).mpr ?_
    rw [rule, ruleOf, ← List.append_nil options]
    exact firstVerdict_append (fun other ho => ih other ho hv) faulty
  | @object nodes required v entries path verdicts mapping _ ih =>
    refine (validateAt_eq_ok_iff hc hv).mpr ?_
    rw [rule, ruleOf]
    simp only [mapping]
    refine Traced.bind_eq_ok.mpr ⟨_, properties_of_forall fun e he => ih e he ?_, rfl⟩
    exact fun w hw => Value.isFinite_of_mem_parts (hv v rfl) (mem_parts_of_find? mapping hw)
  | noMapping other =>
    refine (validateAt_eq_ok_iff hc hv).mpr ?_
    rw [rule, ruleOf]
    simp only [other]
    rfl
  | @array element v items path verdicts listed _ ih =>
    refine (validateAt_eq_ok_iff hc hv).mpr ?_
    rw [rule, ruleOf]
    simp only [listed]
    refine Traced.bind_eq_ok.mpr ⟨_, elements_of_forall fun p hm => ih p hm ?_, rfl⟩
    have hitem := mem_parts_of_listItems? listed (List.fst_mem_of_mem_zipIdx hm)
    simpa using Value.isFinite_of_mem_parts (hv v rfl) hitem
  | noList other =>
    refine (validateAt_eq_ok_iff hc hv).mpr ?_
    rw [rule, ruleOf]
    simp only [other]
    rfl

/-- Validation ends with exactly the verdicts that are derived. -/
theorem validateAt_eq_ok_iff_derives (hc : registry.IsClosed) {node : Node} {value : Option Value}
    (hv : ∀ v ∈ value, v.isFinite = true) {path : Path} {verdict : Verdict} :
    (validateAt registry node value path).outcome = .ok verdict ↔
      Derives registry node value path verdict :=
  ⟨derives_of_validateAt, fun h => validateAt_of_derives hc h hv⟩

end Validation

end ZodSchemas
