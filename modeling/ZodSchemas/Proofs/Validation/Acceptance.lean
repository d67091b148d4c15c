import ZodSchemas.Proofs.Validation.Derivation
import ZodSchemas.Proofs.Validation.Regular
import ZodSchemas.Proofs.Validation.Verdict

/-!
# Acceptance

Parsing answers when validation ends with a verdict, and it succeeds when that
verdict is without issues. About a value that is not inside itself validation
ends with the verdict that is derived, so acceptance is read off the derivation.
-/

namespace ZodSchemas

namespace Registry

/-- Whether a node accepts a value, or the absence of one, is answered. -/
def Answers (registry : Registry) (node : Node) (value : Option Value) : Prop :=
  ∃ result, (parse registry node value).outcome = .ok result

/-- A node accepts a value, or the absence of one. -/
def Accepts (registry : Registry) (node : Node) (value : Option Value) : Prop :=
  ∃ data, (parse registry node value).outcome = .ok (.ok data)

end Registry

namespace Validation

variable {registry : Registry} {node : Node} {value : Option Value}

/-- There is an answer when a verdict is derived. -/
theorem answers_iff_derives (hc : registry.IsClosed) (hv : ∀ v ∈ value, v.isFinite = true) :
    registry.Answers node value ↔ ∃ verdict, Derives registry node value [] verdict := by
  constructor
  · rintro ⟨result, h⟩
    obtain ⟨verdict, hd, -⟩ := parse_eq_ok.mp h
    exact ⟨verdict, derives_of_validateAt hd⟩
  · rintro ⟨verdict, h⟩
    exact ⟨_, parse_eq_ok.mpr ⟨verdict, validateAt_of_derives hc h hv, rfl⟩⟩

/-- A node accepts a value when a verdict without issues is derived. -/
theorem accepts_iff_derives (hc : registry.IsClosed) (hv : ∀ v ∈ value, v.isFinite = true) :
    registry.Accepts node value ↔
      ∃ verdict, Derives registry node value [] verdict ∧ verdict.issues = [] := by
  constructor
  · rintro ⟨data, h⟩
    exact ⟨_, derives_of_validateAt (parse_eq_data.mp h), rfl⟩
  · rintro ⟨⟨data, issues⟩, h, rfl⟩
    exact ⟨data, parse_eq_data.mpr (validateAt_of_derives hc h hv)⟩

/-- What needs a value does not accept its absence. -/
theorem not_accepts_none (hn : node.needsValue = true) : ¬ registry.Accepts node none := by
  rintro ⟨data, h⟩
  have hd := (derives_none hn).mp (derives_of_validateAt (parse_eq_data.mp h))
  simp [Verdict.reject] at hd

/-- What is answered with issues is not accepted. -/
theorem not_accepts_of_issues {issues : List Issue}
    (h : (parse registry node value).outcome = .ok (.error issues)) :
    ¬ registry.Accepts node value := by
  rintro ⟨data, hd⟩
  simp [h] at hd

/-- There is an answer where every node that is met is concrete and the value can be written. -/
theorem answers_of_everywhere (ha : registry.IsAcyclic) (hc : registry.IsClosed)
    (hv : ∀ v ∈ value, v.isFinite = true) (hn : registry.Everywhere registry.IsConcrete node)
    (hw : ∀ v ∈ value, v.IsWritable) : registry.Answers node value := by
  obtain ⟨verdict, h⟩ := exists_verdict_of_everywhere ha hc hv hn hw []
  exact (answers_iff_derives hc hv).mpr ⟨verdict, derives_of_validateAt h⟩

end Validation

end ZodSchemas
