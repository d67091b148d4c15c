import ZodSchemas.Proofs.Validation.Derivation

/-!
# Verdicts of nodes without others in them

A node without others in it leaves the value as it is, and what it finds wrong
is wrong with the value itself. No complaint about a value that is present
reads like the one about a value that is not.
-/

namespace ZodSchemas

namespace Validation

variable {registry : Registry} {v : Value} {path : Path}

/-- A verdict is about the value itself: it leaves the value, and what is wrong is wrong there. -/
structure IsAbout (v : Value) (path : Path) (verdict : Verdict) : Prop where
  /-- The value is left. -/
  data : verdict.data = some v
  /-- All issues are about the place, and none is that nothing is there. -/
  issues : ∀ issue ∈ verdict.issues, issue.path = path ∧ issue.message ≠ "Required"

/-- A text that starts otherwise is another one. -/
theorem ne_of_isPrefix (front : Text) {t other : Text} (h : front <+: t) (hn : ¬ front <+: other) :
    t ≠ other := by
  rintro rfl
  exact hn h

/-- A value of the wrong sort is there. -/
theorem expected_ne_required (sort : Text) (v : Value) : expected sort v ≠ "Required" := by
  refine ne_of_isPrefix "Expected " ?_ (by decide)
  simp [expected]

/-- The complaint that there is, if any. -/
theorem eq_of_mem_complaintIf {isBad : Bool} {complaint : Except Fault Text} {messages : List Text}
    (h : complaintIf isBad complaint = .ok messages) {message : Text} (hm : message ∈ messages) :
    complaint = .ok message := by
  unfold complaintIf at h
  split at h
  · cases complaint with
    | error e => simp [Except.map] at h
    | ok t =>
      obtain rfl : [t] = messages := by simpa [Except.map] using h
      rw [List.mem_singleton.mp hm]
  · obtain rfl : [] = messages := by simpa using h
    simp at hm

/-- What a check says about a text: that it has the wrong length, or that it is no date. -/
theorem message_of_checkIssues {t : Text} {check : Check} {messages : List Text}
    (h : checkIssues t check = .ok messages) {message : Text} (hm : message ∈ messages) :
    (check.kind ≠ .date ∧ ("String must contain at " : Text) <+: message) ∨
      (check.kind = .date ∧ t.isDate = false ∧ message = "Invalid date") := by
  unfold checkIssues at h
  simp only [] at h
  split at h
  · next hk =>
    split at h
    · obtain ⟨limit, -, he⟩ := exceptBind_eq_ok.mp (eq_of_mem_complaintIf h hm)
      obtain rfl := Except.ok.inj he
      have hp : ("String must contain at " : Text) <+: "String must contain at least " :=
        ⟨"least ", rfl⟩
      exact .inl ⟨by simp [hk], hp.trans (by simp)⟩
    · simp at h
  · next hk =>
    split at h
    · obtain ⟨limit, -, he⟩ := exceptBind_eq_ok.mp (eq_of_mem_complaintIf h hm)
      obtain rfl := Except.ok.inj he
      have hp : ("String must contain at " : Text) <+: "String must contain at most " :=
        ⟨"most ", rfl⟩
      exact .inl ⟨by simp [hk], hp.trans (by simp)⟩
    · simp at h
  · next hk =>
    obtain rfl := Except.ok.inj h
    split at hm
    · simp at hm
    · next hd => exact .inr ⟨hk, by simpa using hd, List.mem_singleton.mp hm⟩
  · obtain rfl := Except.ok.inj h
    simp at hm

/-- A text that fails a check is there. -/
theorem ne_required_of_checkIssues {t : Text} {check : Check} {messages : List Text}
    (h : checkIssues t check = .ok messages) : ∀ message ∈ messages, message ≠ "Required" := by
  intro message hm
  rcases message_of_checkIssues h hm with ⟨-, hp⟩ | ⟨-, -, rfl⟩
  · exact ne_of_isPrefix "String must contain at " hp (by decide)
  · decide

/-- A text that fails some checks is there. -/
theorem ne_required_of_checksIssues {t : Text} {checks : List Check} {messages : List Text}
    (h : checksIssues t checks = .ok messages) : ∀ message ∈ messages, message ≠ "Required" := by
  induction checks generalizing messages with
  | nil =>
    obtain rfl := Except.ok.inj h
    simp
  | cons check rest ih =>
    obtain ⟨first, hf, h⟩ := exceptBind_eq_ok.mp h
    obtain ⟨others, ho, h⟩ := exceptBind_eq_ok.mp h
    obtain rfl := Except.ok.inj h
    exact List.forall_mem_append.mpr ⟨ne_required_of_checkIssues hf, ih ho⟩

/-- A value that is accepted. -/
theorem isAbout_accept : IsAbout v path (.accept (some v)) := ⟨rfl, by simp [Verdict.accept]⟩

/-- A value that is rejected for what it is. -/
theorem isAbout_reject {message : Text} (h : message ≠ "Required") :
    IsAbout v path (.reject (some v) path message) := by
  refine ⟨rfl, fun issue hi => ?_⟩
  obtain rfl := List.mem_singleton.mp hi
  exact ⟨rfl, h⟩

/-- A value that is rejected with a complaint that can be said. -/
theorem isAbout_of_rejectWith {complaint : Except Fault Text} {verdict : Verdict}
    (hc : ∀ message, complaint = .ok message → message ≠ "Required")
    (h : (rejectWith v path complaint).outcome = .ok verdict) : IsAbout v path verdict := by
  obtain ⟨message, hm, h⟩ := Traced.bind_eq_ok.mp h
  obtain rfl := Traced.pure_eq_ok.mp h
  exact isAbout_reject (hc message hm)

/-- The verdict of a node without others in it is about the value itself. -/
theorem isAbout_of_isLeaf {node : Node} {verdict : Verdict} (h : node.isLeaf = true)
    (hr : (rule registry refuse node (some v) path).outcome = .ok verdict) :
    IsAbout v path verdict := by
  cases node with
  | string checks =>
    rw [rule, ruleOf] at hr
    unfold string at hr
    split at hr
    · obtain ⟨messages, hm, hr⟩ := Traced.bind_eq_ok.mp hr
      obtain rfl := Traced.pure_eq_ok.mp hr
      refine ⟨rfl, fun issue hi => ?_⟩
      obtain ⟨message, hmem, rfl⟩ := List.mem_map.mp hi
      exact ⟨rfl, ne_required_of_checksIssues hm message hmem⟩
    · obtain rfl := Traced.pure_eq_ok.mp hr
      exact isAbout_reject (expected_ne_required _ _)
  | number =>
    obtain rfl := Traced.pure_eq_ok.mp hr
    unfold number
    split
    · exact isAbout_accept
    · exact isAbout_accept
    · exact isAbout_reject (expected_ne_required _ _)
  | boolean =>
    obtain rfl := Traced.pure_eq_ok.mp hr
    unfold boolean
    split
    · exact isAbout_accept
    · exact isAbout_reject (expected_ne_required _ _)
  | enum values =>
    rw [rule, ruleOf] at hr
    split at hr
    · obtain rfl := Traced.pure_eq_ok.mp hr
      exact isAbout_accept
    · refine isAbout_of_rejectWith (fun message hm => ?_) hr
      obtain ⟨allowed, -, hm⟩ := exceptBind_eq_ok.mp hm
      obtain ⟨received, -, hm⟩ := exceptBind_eq_ok.mp hm
      obtain rfl := Except.ok.inj hm
      exact ne_of_isPrefix "Invalid enum value. Expected " (by simp) (by decide)
  | literal allowed =>
    rw [rule, ruleOf] at hr
    split at hr
    · obtain rfl := Traced.pure_eq_ok.mp hr
      exact isAbout_accept
    · refine isAbout_of_rejectWith (fun message hm => ?_) hr
      obtain ⟨t, -, hm⟩ := exceptBind_eq_ok.mp hm
      obtain rfl := Except.ok.inj hm
      exact ne_of_isPrefix "Invalid literal value, expected " (by simp) (by decide)
  | never =>
    obtain rfl := Traced.pure_eq_ok.mp hr
    exact isAbout_reject (expected_ne_required _ _)
  | _ => simp [Node.isLeaf] at h

end Validation

end ZodSchemas
