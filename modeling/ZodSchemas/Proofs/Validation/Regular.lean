import ZodSchemas.Proofs.Node.Inside
import ZodSchemas.Proofs.Validation.Termination

/-!
# Validation with a verdict

Where lengths are numbers, every value that a message may quote can be written
and every reference has a body, no rule raises a fault. So validation ends with
a verdict.
-/

namespace ZodSchemas

/-- A value can be written, and so can every value inside it. -/
def Value.IsWritable (v : Value) : Prop :=
  ∀ w, Relation.ReflTransGen (fun inner outer => inner ∈ outer.parts) w v →
    ∃ t, w.quoted = .ok t

/-- The values inside a writable value are writable. -/
theorem Value.IsWritable.of_mem_parts {v w : Value} (h : v.IsWritable) (hw : w ∈ v.parts) :
    w.IsWritable :=
  fun u hu => h u (hu.tail hw)

namespace Value

variable {v : Value}

/-- A value that can be written with writable parts is writable. -/
theorem isWritable_of_parts (hq : ∃ t, v.quoted = .ok t) (hp : ∀ w ∈ v.parts, w.IsWritable) :
    v.IsWritable := by
  intro w hw
  rcases Relation.ReflTransGen.cases_tail hw with rfl | ⟨part, hw, hm⟩
  · exact hq
  · exact hp part hm w hw

/-- A value without parts that can be written is writable. -/
theorem isWritable_atom {key : Key} (h : ∃ t, key.quoted = .ok t) : (Value.atom key).IsWritable :=
  isWritable_of_parts h (by simp [parts, shape])

/-- A list of writable values is writable. -/
theorem isWritable_list {items : List Value} (h : ∀ w ∈ items, w.IsWritable) :
    (Value.list items).IsWritable := by
  have hitems : ∃ parts, quotedItems items = .ok parts := by
    induction items with
    | nil => exact ⟨[], rfl⟩
    | cons w rest ih =>
      obtain ⟨hfirst, hrest⟩ := List.forall_mem_cons.mp h
      obtain ⟨t, ht⟩ := hfirst w .refl
      obtain ⟨others, ho⟩ := ih hrest
      exact ⟨_, exceptBind_eq_ok.mpr ⟨t, ht, exceptBind_eq_ok.mpr ⟨others, ho, rfl⟩⟩⟩
  obtain ⟨parts, hparts⟩ := hitems
  exact isWritable_of_parts ⟨_, exceptBind_eq_ok.mpr ⟨parts, hparts, rfl⟩⟩ h

/-- A mapping from texts to writable values is writable. -/
theorem isWritable_map {entries : Entries Value} (hk : ∀ e ∈ entries, ∃ t, e.1 = .text t)
    (h : ∀ e ∈ entries, e.2.IsWritable) : (Value.map entries).IsWritable := by
  have hentries : ∃ parts, quotedEntries entries = .ok parts := by
    induction entries with
    | nil => exact ⟨[], rfl⟩
    | cons e rest ih =>
      obtain ⟨⟨name, hname⟩, hnames⟩ := List.forall_mem_cons.mp hk
      obtain ⟨hfirst, hrest⟩ := List.forall_mem_cons.mp h
      obtain ⟨t, ht⟩ := hfirst e.2 .refl
      obtain ⟨others, ho⟩ := ih hnames hrest
      have hkey : e.1.quoted = .ok (Quoted.text name) := by rw [hname, Key.quoted]
      exact ⟨_, exceptBind_eq_ok.mpr ⟨_, hkey, exceptBind_eq_ok.mpr ⟨t, ht,
        exceptBind_eq_ok.mpr ⟨others, ho, rfl⟩⟩⟩⟩
  obtain ⟨parts, hparts⟩ := hentries
  refine isWritable_of_parts ⟨_, exceptBind_eq_ok.mpr ⟨parts, hparts, rfl⟩⟩ fun w hw => ?_
  obtain ⟨e, he, rfl⟩ := List.mem_map.mp hw
  exact h e he

end Value

/-- A check that can be made: its bound is a number that can be written, if it has one. -/
def Check.IsWritable (check : Check) : Prop :=
  check.kind = .min ∨ check.kind = .max →
    ∃ q t, check.bound.quantity? = some q ∧ check.bound.plain = .ok t

/-- A node without rules that refuse to decide. -/
inductive Node.IsRegular : Node → Prop where
  /-- Texts with checks that can be made. -/
  | string {checks : List Check} (h : ∀ check ∈ checks, check.IsWritable) :
      IsRegular (.string checks)
  /-- Numbers. -/
  | number : IsRegular .number
  /-- Truth values. -/
  | boolean : IsRegular .boolean
  /-- An object of regular nodes. -/
  | object {nodes : Entries Node} {required : List Key} (h : ∀ e ∈ nodes, IsRegular e.2) :
      IsRegular (.object nodes required)
  /-- A list of a regular node. -/
  | array {element : Node} (h : IsRegular element) : IsRegular (.array element)
  /-- A union of regular options. -/
  | union {options : List Node} (h : ∀ option ∈ options, IsRegular option) :
      IsRegular (.union options)
  /-- Values that can be written. -/
  | enum {values : List Value} (h : ∀ v ∈ values, ∃ t, v.quoted = .ok t) :
      IsRegular (.enum values)
  /-- A value that can be written. -/
  | literal {v : Value} (h : ∃ t, v.quoted = .ok t) : IsRegular (.literal v)
  /-- Null or a regular node. -/
  | nullable {inner : Node} (h : IsRegular inner) : IsRegular (.nullable inner)
  /-- Nothing or a regular node. -/
  | optional {inner : Node} (h : IsRegular inner) : IsRegular (.optional inner)
  /-- A reference. -/
  | lazy {ref : Ref} : IsRegular (.lazy ref)
  /-- Nothing. -/
  | never : IsRegular .never
  /-- Anything. -/
  | unknown : IsRegular .unknown

/-- A node whose own rule can decide: it is of some kind, its lengths are numbers, what a message
may quote can be written, and a reference has a body. -/
structure Registry.IsConcrete (registry : Registry) (node : Node) : Prop where
  /-- The node is of some kind. -/
  kind : node ≠ .plain
  /-- Checks can be made. -/
  checks : ∀ checks, node = .string checks → ∀ check ∈ checks, check.IsWritable
  /-- The values of an enumeration can be written. -/
  values : ∀ values, node = .enum values → ∀ v ∈ values, ∃ t, v.quoted = .ok t
  /-- A single value can be written. -/
  value : ∀ v, node = .literal v → ∃ t, v.quoted = .ok t
  /-- A reference has a body. -/
  body : ∀ ref, node = .lazy ref → ∃ body, registry.body ref = .ok body

namespace Validation

variable {registry : Registry}

/-- A call that can be decided: a regular node and a value that can be written. -/
structure IsSound (call : Call) : Prop where
  /-- The node is regular. -/
  node : call.1.IsRegular
  /-- The value can be written. -/
  value : ∀ v ∈ call.2, v.IsWritable

/-- A registry whose references all have regular bodies. -/
def HasRegularBodies (registry : Registry) : Prop :=
  ∀ ref, ∃ body, registry.body ref = .ok body ∧ body.IsRegular

/-- A check that can be made is made. -/
theorem exists_checkIssues (t : Text) {check : Check} (h : check.IsWritable) :
    ∃ messages, checkIssues t check = .ok messages := by
  obtain ⟨kind, bound⟩ := check
  unfold checkIssues
  cases kind with
  | min =>
    obtain ⟨q, limit, hq, hl⟩ := h (.inl rfl)
    simp only [hq, complaintIf, tooShort, hl]
    split
    · exact ⟨_, rfl⟩
    · exact ⟨_, rfl⟩
  | max =>
    obtain ⟨q, limit, hq, hl⟩ := h (.inr rfl)
    simp only [hq, complaintIf, tooLong, hl]
    split
    · exact ⟨_, rfl⟩
    · exact ⟨_, rfl⟩
  | date => exact ⟨_, rfl⟩
  | other name => exact ⟨_, rfl⟩

/-- Checks come to an end when each of them does. -/
theorem exists_checksIssues {t : Text} {checks : List Check} :
    (∃ messages, checksIssues t checks = .ok messages) ↔
      ∀ check ∈ checks, ∃ messages, checkIssues t check = .ok messages := by
  induction checks with
  | nil => simp [checksIssues]
  | cons check rest ih =>
    rw [List.forall_mem_cons, ← ih, checksIssues]
    constructor
    · rintro ⟨messages, h⟩
      obtain ⟨first, hf, h⟩ := exceptBind_eq_ok.mp h
      obtain ⟨others, ho, -⟩ := exceptBind_eq_ok.mp h
      exact ⟨⟨first, hf⟩, others, ho⟩
    · rintro ⟨⟨first, hf⟩, others, ho⟩
      exact ⟨_, exceptBind_eq_ok.mpr ⟨first, hf, exceptBind_eq_ok.mpr ⟨others, ho, rfl⟩⟩⟩

/-- The rule of a concrete node raises no fault about a value that can be written. -/
theorem not_raises_of_isConcrete {node : Node} {value : Option Value} {fault : Fault}
    (hn : registry.IsConcrete node) (hv : ∀ v ∈ value, v.IsWritable) :
    ¬ Raises registry (node, value) fault := by
  intro hr
  cases hr with
  | plain => exact hn.kind rfl
  | @check checks t fault h =>
    obtain ⟨messages, hm⟩ := exists_checksIssues.mpr fun check hc =>
      exists_checkIssues t (hn.checks _ rfl check hc)
    simp [hm] at h
  | @choice values v fault h =>
    rcases exceptBind_eq_error.mp h with h | ⟨allowed, -, h⟩
    · obtain ⟨w, hm, h⟩ := exists_of_mapM_eq_error h
      obtain ⟨t, ht⟩ := hn.values _ rfl w hm
      simp [ht] at h
    · obtain ⟨t, ht⟩ := hv v rfl v .refl
      rcases exceptBind_eq_error.mp h with h | ⟨received, -, h⟩
      · simp [ht] at h
      · simp at h
  | @literal allowed v fault h =>
    obtain ⟨t, ht⟩ := hn.value _ rfl
    rcases exceptBind_eq_error.mp h with h | ⟨received, -, h⟩
    · simp [ht] at h
    · simp at h
  | @body ref value fault h =>
    obtain ⟨body, hbody⟩ := hn.body _ rfl
    simp [hbody] at h

/-- A call is about a node right below that of the call it is made for, or about the same. -/
theorem isBelow_of_calls {call callee : Call} (h : Calls registry callee call) :
    registry.IsBelow callee.1 call.1 := by
  cases h with
  | enter he =>
    cases he with
    | property _ declared => exact .part (.property declared)
    | element _ _ => exact .part .element
  | unwrap hu =>
    cases hu with
    | option member => exact .part (.option member)
    | nullable _ => exact .part .nullable
    | optional => exact .part .optional
  | follow found => exact .body found

/-- The values that calls are about can be written when that of the first one can. -/
theorem isWritable_of_calls {call callee : Call} (h : Calls registry callee call)
    (hv : ∀ v ∈ call.2, v.IsWritable) : ∀ v ∈ callee.2, v.IsWritable := by
  cases h with
  | follow _ => exact hv
  | unwrap hu => cases hu <;> exact hv
  | enter he =>
    cases he with
    | property mapping _ =>
      exact fun w hw => (hv _ rfl).of_mem_parts (mem_parts_of_find? mapping hw)
    | element listed member =>
      rintro u ⟨⟩
      exact (hv _ rfl).of_mem_parts (mem_parts_of_listItems? listed member)

/-- Validation of a value that can be written ends with a verdict, when every node that is met is
concrete. -/
theorem exists_verdict_of_everywhere (ha : registry.IsAcyclic) (hc : registry.IsClosed)
    {node : Node} {value : Option Value} (hv : ∀ v ∈ value, v.isFinite = true)
    (hn : registry.Everywhere registry.IsConcrete node) (hw : ∀ v ∈ value, v.IsWritable)
    (path : Path) : ∃ verdict, (validateAt registry node value path).outcome = .ok verdict := by
  cases ho : (validateAt registry node value path).outcome with
  | ok verdict => exact ⟨verdict, rfl⟩
  | error fault =>
    obtain ⟨first, hr, hf⟩ := exists_raises_of_error ha hc hv ho
    have hfirst : registry.Everywhere registry.IsConcrete first.1 ∧
        ∀ v ∈ first.2, v.IsWritable := by
      clear hf
      induction hr using Relation.ReflTransGen.head_induction_on with
      | refl => exact ⟨hn, hw⟩
      | head hc _ ih => exact ⟨ih.1.below (isBelow_of_calls hc), isWritable_of_calls hc ih.2⟩
    exact absurd hf (not_raises_of_isConcrete hfirst.1.self hfirst.2)

/-- Where all references have regular bodies, what is met from a regular node is concrete. -/
theorem everywhere_isConcrete (hb : HasRegularBodies registry) {node : Node} (h : node.IsRegular) :
    registry.Everywhere registry.IsConcrete node := by
  have regular : registry.Everywhere Node.IsRegular node := by
    refine Registry.everywhere_of_below (fun inner outer hi ho => ?_) h
    cases hi with
    | part hp =>
      cases hp with
      | property member =>
        cases ho with
        | object h => exact h _ member
      | element =>
        cases ho with
        | array h => exact h
      | option member =>
        cases ho with
        | union h => exact h _ member
      | nullable =>
        cases ho with
        | nullable h => exact h
      | optional =>
        cases ho with
        | optional h => exact h
    | @body ref body found =>
      obtain ⟨other, hother, hr⟩ := hb ref
      obtain rfl : inner = other := by simpa [hother] using found.symm
      exact hr
  intro inner hi
  have hr := regular inner hi
  refine ⟨?_, ?_, ?_, ?_, fun ref _ => ?_⟩
  · rintro rfl
    cases hr
  · rintro checks rfl
    cases hr with
    | string h => exact h
  · rintro values rfl
    cases hr with
    | enum h => exact h
  · rintro v rfl
    cases hr with
    | literal h => exact h
  · obtain ⟨body, hbody, -⟩ := hb ref
    exact ⟨body, hbody⟩

/-- Validation of a sound call ends with a verdict. -/
theorem exists_verdict (ha : registry.IsAcyclic) (hc : registry.IsClosed)
    (hb : HasRegularBodies registry) {node : Node} {value : Option Value}
    (hv : ∀ v ∈ value, v.isFinite = true) (h : IsSound (node, value)) (path : Path) :
    ∃ verdict, (validateAt registry node value path).outcome = .ok verdict :=
  exists_verdict_of_everywhere ha hc hv (everywhere_isConcrete hb h.node) h.value path

end Validation

end ZodSchemas
