import ZodSchemas.Proofs.Validation.Leaves
import ZodSchemas.Proofs.Validation.Regular
import ZodSchemas.Proofs.Value.Dates

/-!
# Texts that pass a check for dates

A check for dates says nothing about the texts that name a day of the calendar,
and says of any other text that it is no date. What the other checks of a node
say reads otherwise, and no check says anything about another one.
-/

namespace ZodSchemas

/-- What is said about a text that is no date. -/
def invalidDate : Text := "Invalid date"

namespace Validation

variable {t : Text} {check : Check} {checks : List Check} {messages : List Text}

/-- A check for dates always comes to an end. -/
theorem checkIssues_of_date (h : check.kind = .date) :
    checkIssues t check = .ok (if t.isDate then [] else [invalidDate]) := by
  unfold checkIssues
  simp only [h]
  rfl

/-- A check says that a text is no date when it is a check for dates and the text is none. -/
theorem mem_checkIssues (h : checkIssues t check = .ok messages) :
    invalidDate ∈ messages ↔ check.kind = .date ∧ t.isDate = false := by
  constructor
  · intro hm
    rcases message_of_checkIssues h hm with ⟨-, hp⟩ | ⟨hk, hd, -⟩
    · exact absurd rfl (ne_of_isPrefix "String must contain at " hp (by decide))
    · exact ⟨hk, hd⟩
  · rintro ⟨hk, hd⟩
    rw [checkIssues_of_date hk, hd, Except.ok.injEq] at h
    simp [← h]

/-- Some checks say that a text is no date when one of them is for dates and the text is none. -/
theorem mem_checksIssues (h : checksIssues t checks = .ok messages) :
    invalidDate ∈ messages ↔ (∃ check ∈ checks, check.kind = .date) ∧ t.isDate = false := by
  induction checks generalizing messages with
  | nil =>
    obtain rfl := Except.ok.inj h
    simp
  | cons check rest ih =>
    obtain ⟨first, hf, h⟩ := exceptBind_eq_ok.mp h
    obtain ⟨others, ho, h⟩ := exceptBind_eq_ok.mp h
    obtain rfl := Except.ok.inj h
    rw [List.mem_append, mem_checkIssues hf, ih ho]
    simp only [List.exists_mem_cons_iff, or_and_right]

/-- The verdict on a text holds what the checks of the node say. -/
theorem validateAt_string {registry : Registry} {path : Path} {verdict : Verdict} :
    (validateAt registry (.string checks) (some (.text t)) path).outcome = .ok verdict ↔
      ∃ messages, checksIssues t checks = .ok messages ∧
        ⟨some (.text t), messages.map fun message => ⟨path, message⟩⟩ = verdict := by
  have hlevel : validateAt registry (.string checks) (some (.text t)) path =
      string checks (.text t) path := by
    unfold validateAt within level
    split <;> rfl
  rw [hlevel]
  unfold string
  rw [Traced.bind_eq_ok]
  simp only [Traced.outcome_liftM, Traced.pure_eq_ok]

end Validation

/-- A node with a check for dates says that a text is no date exactly when the text is not four, two
and two ASCII digits with hyphens between them that name a day of the calendar. The check always
comes to an end, so there is a verdict when the other checks of the node do. -/
theorem dates_are_decided (registry : Registry) {checks : List Check} (t : Text) (path : Path)
    (h : ∃ check ∈ checks, check.kind = .date) :
    (∀ verdict,
      (validateAt registry (.string checks) (some (.text t)) path).outcome = .ok verdict →
        ((∀ issue ∈ verdict.issues, issue.message ≠ invalidDate) ↔ t.NamesDay)) ∧
    ((∃ verdict,
      (validateAt registry (.string checks) (some (.text t)) path).outcome = .ok verdict) ↔
        ∀ check ∈ checks, check.kind ≠ .date →
          ∃ messages, Validation.checkIssues t check = .ok messages) := by
  simp only [Validation.validateAt_string]
  constructor
  · rintro _ ⟨messages, hm, rfl⟩
    rw [← Text.isDate_iff_namesDay, ← Bool.not_eq_false, ← and_iff_right h (b := t.isDate = false),
      ← Validation.mem_checksIssues hm]
    simp only [List.forall_mem_map]
    exact ⟨fun hn hi => hn _ hi rfl, fun hn message hi he => hn (he ▸ hi)⟩
  · constructor
    · rintro ⟨_, messages, hm, -⟩ check hc -
      exact Validation.exists_checksIssues.mp ⟨messages, hm⟩ check hc
    · intro hothers
      have hall : ∀ check ∈ checks, ∃ messages, Validation.checkIssues t check = .ok messages := by
        intro check hc
        by_cases hk : check.kind = .date
        · exact ⟨_, Validation.checkIssues_of_date hk⟩
        · exact hothers check hc hk
      obtain ⟨messages, hm⟩ := Validation.exists_checksIssues.mpr hall
      exact ⟨_, messages, hm, rfl⟩

/-- A text for each way in which one of the two tests is misled: no such day, a line feed, digits of
another script, a week, no hyphens. -/
def undatedTexts : List Text :=
  ["2023-02-29", "2024-02-29\n", "\u0662\u0660\u0662\u0664-02-29", "2024-W09-4", "20240229"]

/-- A leap day, and texts that are no days. -/
theorem dates_are_decided_leap :
    (∃ check ∈ [(⟨.date, .null⟩ : Check)], check.kind = .date) ∧ Text.NamesDay "2024-02-29" ∧
      ∀ t ∈ undatedTexts, ¬ Text.NamesDay t := by
  have hc : ∃ check ∈ [(⟨.date, .null⟩ : Check)], check.kind = .date := by simp
  have verdicts (t : Text) : (validateAt (.ofEntries [] []) (.string [⟨.date, .null⟩])
      (some (.text t)) []).outcome = .ok ⟨some (.text t),
        if t.isDate then [] else [⟨[], invalidDate⟩]⟩ := by
    refine Validation.validateAt_string.mpr ⟨if t.isDate then [] else [invalidDate], ?_, ?_⟩
    · simp [Validation.checksIssues, Validation.checkIssues_of_date, bind, Except.bind]
    · cases t.isDate <;> rfl
  refine ⟨hc, ?_, ?_⟩
  · exact ((dates_are_decided _ _ [] hc).1 _ (verdicts _)).mp (by decide)
  · have hrefused : ∀ t ∈ undatedTexts, t.isDate = false := by decide
    intro t ht hn
    have hnone := ((dates_are_decided _ t [] hc).1 _ (verdicts t)).mpr hn
    simp [hrefused t ht] at hnone

end ZodSchemas
