import ZodSchemas.Proofs.Validation.Rule
import ZodSchemas.Proofs.Value.Dates

/-!
# What verdicts say

A verdict without issues says that the value is what the node describes. For
each sort of node the rule says so exactly when the verdicts about the calls
that it makes do, together with what the rule checks itself.
-/

namespace ZodSchemas

namespace Validation

/-- A verdict, if there is one, is without issues exactly when something holds. -/
def Decides (judging : Judging) (p : Prop) : Prop :=
  ∀ verdict, judging.outcome = .ok verdict → (verdict.issues = [] ↔ p)

/-- What is decided may be put in other words. -/
theorem Decides.congr {judging : Judging} {p q : Prop} (h : Decides judging p) (he : p ↔ q) :
    Decides judging q :=
  fun verdict hv => (h verdict hv).trans he

/-- A value that is accepted decides what holds. -/
theorem decides_accept {data : Option Value} {p : Prop} (h : p) :
    Decides (pure (.accept data)) p := by
  rintro verdict ⟨⟩
  simpa [Verdict.accept] using h

/-- A value that is rejected decides what does not hold. -/
theorem decides_reject {value : Option Value} {path : Path} {message : Text} {p : Prop} (h : ¬ p) :
    Decides (pure (.reject value path message)) p := by
  rintro verdict ⟨⟩
  simpa [Verdict.reject] using h

/-- A value that is rejected with a complaint, if it can be said, decides what does not hold. -/
theorem decides_rejectWith {v : Value} {path : Path} {complaint : Except Fault Text} {p : Prop}
    (h : ¬ p) : Decides (rejectWith v path complaint) p := by
  intro verdict hv
  obtain ⟨message, -, hv⟩ := Traced.bind_eq_ok.mp hv
  exact decides_reject h verdict hv

/-- A value that is rejected has an issue. -/
theorem rejectWith_ne_data {v : Value} {path : Path} {data : Option Value}
    {complaint : Except Fault Text} :
    (rejectWith v path complaint).outcome ≠ .ok ⟨data, []⟩ := fun h =>
  (decides_rejectWith not_false _ h).mp rfl

section Rules

variable {enter unwrap : Judge} {follow : Ref → Option Value → Path → Judging} {path : Path}
  {v : Value}

/-- Properties are without issues when each of them is. -/
theorem issues_of_properties {entries : Entries Value} {nodes : Entries Node}
    {p : Key × Node → Prop}
    (h : ∀ e ∈ nodes, ∀ path, Decides (enter e.2 (Entries.find? e.1 entries) path) (p e))
    {data : Entries Value} {issues : List Issue}
    (hr : (properties enter entries path nodes).outcome = .ok (data, issues)) :
    issues = [] ↔ ∀ e ∈ nodes, p e := by
  induction nodes generalizing data issues with
  | nil =>
    obtain ⟨-, rfl⟩ : [] = data ∧ [] = issues := by simpa [properties] using hr
    simp
  | cons e rest ih =>
    obtain ⟨key, node⟩ := e
    rw [properties] at hr
    obtain ⟨verdict, hv, hr⟩ := Traced.bind_eq_ok.mp hr
    obtain ⟨⟨others, more⟩, ho, hr⟩ := Traced.bind_eq_ok.mp hr
    obtain ⟨-, rfl⟩ := Prod.mk.injEq .. ▸ Traced.pure_eq_ok.mp hr
    rw [List.append_eq_nil_iff, h (key, node) (by simp) _ verdict hv,
      ih (fun e he => h e (List.mem_cons_of_mem _ he)) ho, List.forall_mem_cons]

/-- Elements are without issues when each of them is. -/
theorem issues_of_elements {element : Node} {index : Nat} {items : List Value} {p : Value → Prop}
    (h : ∀ w ∈ items, ∀ path, Decides (enter element (some w) path) (p w))
    {data : List Value} {issues : List Issue}
    (hr : (elements enter element path index items).outcome = .ok (data, issues)) :
    issues = [] ↔ ∀ w ∈ items, p w := by
  induction items generalizing index data issues with
  | nil =>
    obtain ⟨-, rfl⟩ : [] = data ∧ [] = issues := by simpa [elements] using hr
    simp
  | cons w rest ih =>
    rw [elements] at hr
    obtain ⟨verdict, hv, hr⟩ := Traced.bind_eq_ok.mp hr
    obtain ⟨⟨others, more⟩, ho, hr⟩ := Traced.bind_eq_ok.mp hr
    obtain ⟨-, rfl⟩ := Prod.mk.injEq .. ▸ Traced.pure_eq_ok.mp hr
    rw [List.append_eq_nil_iff, h w (by simp) _ verdict hv,
      ih (fun w hw => h w (List.mem_cons_of_mem _ hw)) ho, List.forall_mem_cons]

/-- Where a mapping is without issues, each of its properties is. -/
theorem exists_of_properties_eq_ok {entries data : Entries Value} {nodes : Entries Node}
    (h : (properties enter entries path nodes).outcome = .ok (data, [])) :
    ∀ e ∈ nodes, ∃ path data, (enter e.2 (Entries.find? e.1 entries) path).outcome =
      .ok ⟨data, []⟩ := by
  induction nodes generalizing data with
  | nil => simp
  | cons e rest ih =>
    obtain ⟨key, node⟩ := e
    rw [properties] at h
    obtain ⟨⟨own, first⟩, hv, h⟩ := Traced.bind_eq_ok.mp h
    obtain ⟨⟨others, more⟩, ho, h⟩ := Traced.bind_eq_ok.mp h
    have hn : first ++ more = [] := (Prod.mk.inj (Traced.pure_eq_ok.mp h)).2
    obtain ⟨rfl, rfl⟩ := List.append_eq_nil_iff.mp hn
    rw [List.forall_mem_cons]
    exact ⟨⟨_, own, hv⟩, ih ho⟩

/-- The first option without issues decides that there is one. -/
theorem decides_firstVerdict {options : List Node} {p : Node → Prop}
    (h : ∀ option ∈ options, Decides (unwrap option (some v) path) (p option)) :
    Decides (firstVerdict unwrap options v path) (∃ option ∈ options, p option) := by
  induction options with
  | nil => exact decides_reject (by simp)
  | cons option rest ih =>
    intro verdict hr
    obtain ⟨first, hf, hr⟩ := Traced.bind_eq_ok.mp hr
    have hfirst := h option (by simp) first hf
    have hrest := ih fun o ho => h o (List.mem_cons_of_mem _ ho)
    split at hr
    · next he =>
      obtain rfl := Traced.pure_eq_ok.mp hr
      have he := List.isEmpty_iff.mp he
      simp [he, hfirst.mp he]
    · next he =>
      have hn : ¬ p option := fun hp => he (List.isEmpty_iff.mpr (hfirst.mpr hp))
      rw [hrest verdict hr]
      simp [hn]

/-- The verdict about a union without issues is that of an option; where it has issues, all options
have some. -/
theorem cases_of_firstVerdict {options : List Node} {v : Value} {verdict : Verdict}
    (h : (firstVerdict unwrap options v path).outcome = .ok verdict) :
    (verdict.issues = [] ∧
      ∃ option ∈ options, (unwrap option (some v) path).outcome = .ok verdict) ∨
      (verdict.issues ≠ [] ∧
        ∀ option ∈ options, ∀ data, (unwrap option (some v) path).outcome ≠ .ok ⟨data, []⟩) := by
  induction options with
  | nil =>
    obtain rfl := Traced.pure_eq_ok.mp h
    exact .inr ⟨by simp [Verdict.reject], by simp⟩
  | cons option rest ih =>
    obtain ⟨first, hf, h⟩ := Traced.bind_eq_ok.mp h
    split at h
    · next he =>
      obtain rfl := Traced.pure_eq_ok.mp h
      exact .inl ⟨List.isEmpty_iff.mp he, option, by simp, hf⟩
    · next he =>
      rcases ih h with ⟨hi, o, ho, hv⟩ | ⟨hi, hn⟩
      · exact .inl ⟨hi, o, List.mem_cons_of_mem _ ho, hv⟩
      · refine .inr ⟨hi, List.forall_mem_cons.mpr ⟨fun data hd => he ?_, hn⟩⟩
        obtain rfl := Except.ok.inj (hf.symm.trans hd)
        rfl

/-- There are no complaints about a text when no check has any. -/
theorem checksIssues_eq_nil {t : Text} {checks : List Check} {messages : List Text}
    (h : checksIssues t checks = .ok messages) :
    messages = [] ↔ ∀ check ∈ checks, checkIssues t check = .ok [] := by
  induction checks generalizing messages with
  | nil =>
    obtain rfl := Except.ok.inj h
    simp
  | cons check rest ih =>
    obtain ⟨first, hf, h⟩ := exceptBind_eq_ok.mp h
    obtain ⟨others, ho, h⟩ := exceptBind_eq_ok.mp h
    obtain rfl := Except.ok.inj h
    rw [List.append_eq_nil_iff, ih ho, List.forall_mem_cons, hf, Except.ok.injEq]

/-- There is a complaint when there is reason for it, if it can be said. -/
theorem complaintIf_eq_nil {isBad : Bool} {complaint : Except Fault Text} :
    complaintIf isBad complaint = .ok [] ↔ isBad = false := by
  cases isBad with
  | false => simp [complaintIf]
  | true => cases complaint <;> simp [complaintIf, Except.map]

/-- A least length lets the texts pass that are no shorter. -/
theorem checkIssues_min {t : Text} {n : Int} :
    checkIssues t ⟨.min, .int n⟩ = .ok [] ↔ n ≤ t.length := by
  change complaintIf (Quantity.lt (.finite t.length) (.finite n)) (tooShort (.int n)) = .ok [] ↔ _
  rw [complaintIf_eq_nil, Quantity.lt, decide_eq_false_iff_not, Rat.not_lt]
  exact Rat.intCast_le_intCast

/-- A greatest length lets the texts pass that are no longer. -/
theorem checkIssues_max {t : Text} {n : Int} :
    checkIssues t ⟨.max, .int n⟩ = .ok [] ↔ t.length ≤ n := by
  change complaintIf (Quantity.lt (.finite n) (.finite t.length)) (tooLong (.int n)) = .ok [] ↔ _
  rw [complaintIf_eq_nil, Quantity.lt, decide_eq_false_iff_not, Rat.not_lt]
  exact Rat.intCast_le_intCast

/-- A format of dates lets the texts pass that are dates. -/
theorem checkIssues_date {t : Text} {bound : Value} :
    checkIssues t ⟨.date, bound⟩ = .ok [] ↔ (Date.ofText? t).isSome = true := by
  simp [checkIssues, ← Text.isDate_eq]

/-- A text that is too short for a length that cannot be written is not rejected but refused. -/
theorem checkIssues_unwritable {t : Text} {n : Nat} (hn : Numeral.integer? n = none)
    (hl : t.length < n) : checkIssues t ⟨.min, .int n⟩ = .error .tooManyDigits := by
  have hb : Quantity.lt (.finite t.length) (.finite (n : Int)) = true := by
    rw [Quantity.lt, decide_eq_true_iff]
    exact Rat.natCast_lt_natCast.mpr hl
  change complaintIf (Quantity.lt (.finite t.length) (.finite (n : Int))) (tooShort (.int n)) = _
  rw [hb]
  simp [complaintIf, tooShort, Value.plain, Key.plain, Key.quoted, hn, Except.map, bind,
    Except.bind]

/-- A text is what its checks let pass. -/
theorem decides_string {checks : List Check} :
    Decides (ruleOf enter unwrap follow (.string checks) (some v) path)
      (∃ t, v = .text t ∧ ∀ check ∈ checks, checkIssues t check = .ok []) := by
  rw [ruleOf]
  unfold string
  split
  · next t =>
    intro verdict hr
    obtain ⟨messages, hm, hr⟩ := Traced.bind_eq_ok.mp hr
    obtain rfl := Traced.pure_eq_ok.mp hr
    simp [List.map_eq_nil_iff, checksIssues_eq_nil hm]
  · next hv =>
    refine decides_reject ?_
    rintro ⟨t, rfl, -⟩
    exact hv t rfl

/-- A number is an integer or a double-precision number. -/
theorem decides_number : Decides (ruleOf enter unwrap follow .number (some v) path)
    ((∃ n, v = .int n) ∨ ∃ x, v = .float x) := by
  rw [ruleOf]
  unfold number
  split
  · exact decides_accept (by simp)
  · exact decides_accept (by simp)
  · next hi hf =>
    refine decides_reject ?_
    rintro (⟨n, rfl⟩ | ⟨x, rfl⟩)
    · exact hi n rfl
    · exact hf x rfl

/-- A truth value is one. -/
theorem decides_boolean : Decides (ruleOf enter unwrap follow .boolean (some v) path)
    (∃ b, v = .bool b) := by
  rw [ruleOf]
  unfold boolean
  split
  · exact decides_accept (by simp)
  · next hb =>
    refine decides_reject ?_
    rintro ⟨b, rfl⟩
    exact hb b rfl

/-- An object is a mapping with the described properties. -/
theorem decides_object {nodes : Entries Node} {required : List Key}
    {p : Entries Value → Key × Node → Prop}
    (h : ∀ entries, v.entries? = some entries → ∀ e ∈ nodes, ∀ path,
      Decides (enter e.2 (Entries.find? e.1 entries) path) (p entries e)) :
    Decides (ruleOf enter unwrap follow (.object nodes required) (some v) path)
      (∃ entries, v.entries? = some entries ∧ ∀ e ∈ nodes, p entries e) := by
  rw [ruleOf]
  cases hv : v.entries? with
  | none => exact decides_reject (by simp)
  | some entries =>
    intro verdict hr
    obtain ⟨⟨data, issues⟩, hp, hr⟩ := Traced.bind_eq_ok.mp hr
    obtain rfl := Traced.pure_eq_ok.mp hr
    simp [issues_of_properties (h entries hv) hp]

/-- A list is one with the described elements. -/
theorem decides_array {element : Node} {p : Value → Prop}
    (h : ∀ items, listItems? v = some items → ∀ w ∈ items, ∀ path,
      Decides (enter element (some w) path) (p w)) :
    Decides (ruleOf enter unwrap follow (.array element) (some v) path)
      (∃ items, listItems? v = some items ∧ ∀ w ∈ items, p w) := by
  rw [ruleOf]
  cases hv : listItems? v with
  | none => exact decides_reject (by simp)
  | some items =>
    intro verdict hr
    obtain ⟨⟨data, issues⟩, hp, hr⟩ := Traced.bind_eq_ok.mp hr
    obtain rfl := Traced.pure_eq_ok.mp hr
    simp [issues_of_elements (h items hv) hp]

/-- A value is one of several when it matches one. -/
theorem decides_ofValues {values : List Value} :
    Decides (ruleOf enter unwrap follow (.ofValues values) (some v) path)
      (∃ allowed ∈ values, allowed.isMatch v = true) := by
  unfold Node.ofValues
  split
  · next allowed =>
    rw [ruleOf]
    split
    · next hm => exact decides_accept (by simpa using hm)
    · next hm => exact decides_rejectWith (by simpa using hm)
  · rw [ruleOf]
    split
    · next hm => exact decides_accept (by simpa using hm)
    · next hm => exact decides_rejectWith (by simpa using hm)

/-- A value that is one of several may not be absent. -/
theorem ruleOf_ofValues_none (values : List Value) :
    ruleOf enter unwrap follow (.ofValues values) none path =
      pure (.reject none path "Required") := by
  unfold Node.ofValues
  split <;> rfl

/-- Null or what a node describes. -/
theorem decides_nullable {inner : Node} {p : Prop}
    (h : v ≠ .null → Decides (unwrap inner (some v) path) p) :
    Decides (ruleOf enter unwrap follow (.nullable inner) (some v) path) (v = .null ∨ p) := by
  by_cases hn : v = .null
  · subst hn
    exact decides_accept (.inl rfl)
  · rw [ruleOf_nullable hn]
    exact (h hn).congr (by simp [hn])

end Rules

end Validation

/-- Parsing succeeds when validation is without issues. -/
theorem parse_eq_ok {registry : Registry} {node : Node} {value : Option Value}
    {result : Except (List Issue) (Option Value)} :
    (parse registry node value).outcome = .ok result ↔
      ∃ verdict, (validate registry node value).outcome = .ok verdict ∧
        result = if verdict.issues.isEmpty then .ok verdict.data else .error verdict.issues := by
  rw [parse, Traced.bind_eq_ok]
  simp only [Traced.outcome_pure, Except.ok.injEq, eq_comm]

/-- Parsing gives data when validation is without issues and leaves that data. -/
theorem parse_eq_data {registry : Registry} {node : Node} {value data : Option Value} :
    (parse registry node value).outcome = .ok (.ok data) ↔
      (validate registry node value).outcome = .ok ⟨data, []⟩ := by
  rw [parse_eq_ok]
  constructor
  · rintro ⟨⟨left, issues⟩, hv, hr⟩
    cases issues with
    | nil =>
      obtain rfl : data = left := by simpa using hr
      exact hv
    | cons issue issues => simp at hr
  · exact fun h => ⟨_, h, rfl⟩

end ZodSchemas
