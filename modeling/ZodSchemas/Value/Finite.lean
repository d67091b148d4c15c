import Mathlib.Data.Finset.Card
import Mathlib.Data.Finset.Range
import ZodSchemas.Value.Depth

/-!
# Values that are not inside themselves

A walk into a value goes from a value to one of its parts at every step. In a
value without knots every walk ends, and so it does in a knot in which no
container is inside itself. The main statement is that such walks are no longer
than the value is deep: a knot of `n` containers has no walk through more than
`n` of them, since the containers from which walks of a length end get more
with every length until they are all that there are.
-/

namespace ZodSchemas.Value

/-- The values right inside a value. -/
def parts (v : Value) : List Value :=
  match v.shape with
  | .list items => items
  | .pair a b => [a, b]
  | .map entries => entries.map (·.2)
  | .atom _ | .set _ => []

/-- Whether every walk into a value ends after at most `n` steps. -/
def fits : Nat → Value → Bool
  | 0, v => v.parts.isEmpty
  | n + 1, v => v.parts.all (fits n)

/-- Whether every walk into a value ends. -/
def isFinite (v : Value) : Bool := v.fits v.depth

/-- The parts of a value that fits are one step closer to the end. -/
theorem fits_succ {n : Nat} {v : Value} :
    v.fits (n + 1) = true ↔ ∀ w ∈ v.parts, w.fits n = true := by
  simp [fits]

/-- A longer bound admits all that a shorter one does. -/
theorem fits_mono {n m : Nat} {v : Value} (h : v.fits n = true) (hnm : n ≤ m) :
    v.fits m = true := by
  induction n generalizing m v with
  | zero =>
    have he : v.parts = [] := by simpa [fits] using h
    cases m with
    | zero => exact h
    | succ m => simp [fits, he]
  | succ n ih =>
    obtain ⟨m, rfl⟩ : ∃ k, m = k + 1 := ⟨m - 1, by omega⟩
    exact fits_succ.mpr fun w hw => ih (fits_succ.mp h w hw) (by omega)

/-- A part fits wherever the whole does. -/
theorem fits_of_mem_parts {n : Nat} {v w : Value} (h : v.fits n = true) (hw : w ∈ v.parts) :
    w.fits n = true := by
  cases n with
  | zero =>
    have he : v.parts = [] := by simpa [fits] using h
    simp [he] at hw
  | succ n => exact fits_mono (fits_succ.mp h w hw) (Nat.le_succ n)

/-- A value without parts fits everywhere. -/
@[simp] theorem fits_atom (n : Nat) (key : Key) : (Value.atom key).fits n = true := by
  cases n <;> rfl

section Knots

variable {ties : Knot} {n p : Nat}

/-- The containers of a knot from which every walk ends after at most `n` steps. -/
def ending (ties : Knot) (n : Nat) : Finset Nat :=
  (Finset.range ties.size).filter fun p => (Value.knot ties p).fits n = true

/-- A part of a container of a knot is an atom or another container. -/
theorem mem_parts_knot {w : Value} (hw : w ∈ (Value.knot ties p).parts) :
    (∃ key, w = .atom key) ∨ ∃ q, w = .knot ties q := by
  have strand : ∀ s : Strand, (∃ key, ofStrand ties s = .atom key) ∨
      ∃ q, ofStrand ties s = .knot ties q := by
    intro s
    cases s with
    | key key => exact .inl ⟨key, rfl⟩
    | place q => exact .inr ⟨q, rfl⟩
  unfold parts shape at hw
  cases hp : ties[p]? with
  | none => simp [hp] at hw
  | some loop =>
    cases loop with
    | list items =>
      obtain ⟨s, -, rfl⟩ : ∃ s ∈ items, ofStrand ties s = w := by
        simpa [hp, shapeOf] using hw
      exact strand s
    | pair a b =>
      have h : w = ofStrand ties a ∨ w = ofStrand ties b := by simpa [hp, shapeOf] using hw
      rcases h with rfl | rfl
      · exact strand a
      · exact strand b
    | map entries =>
      obtain ⟨_, s, -, rfl⟩ : ∃ k s, (k, s) ∈ entries ∧ ofStrand ties s = w := by
        simpa [hp, shapeOf] using hw
      exact strand s
    | set items => simp [hp, shapeOf] at hw

/-- A place that a knot does not have holds nothing, from which no walk starts. -/
theorem fits_knot_of_size_le (h : ties.size ≤ p) : (Value.knot ties p).fits n = true := by
  have he : (Value.knot ties p).parts = [] := by simp [parts, shape, h]
  cases n <;> simp [fits, he]

/-- Once a longer bound admits no further container, none ever does. -/
theorem ending_stable (h : ending ties n = ending ties (n + 1)) (m : Nat) :
    ending ties (n + m) = ending ties n := by
  have fits_at : ∀ k q, (Value.knot ties q).fits k = true ↔ q ∈ ending ties k ∨ ties.size ≤ q := by
    intro k q
    by_cases hq : q < ties.size
    · simp [ending, hq, Nat.not_le.mpr hq]
    · simp [fits_knot_of_size_le (Nat.not_lt.mp hq), Nat.not_lt.mp hq]
  induction m with
  | zero => rfl
  | succ m ih =>
    rw [h]
    ext q
    simp only [ending, Finset.mem_filter, and_congr_right_iff]
    intro _
    rw [← Nat.add_assoc, fits_succ, fits_succ]
    refine forall₂_congr fun w hw => ?_
    rcases mem_parts_knot hw with ⟨key, rfl⟩ | ⟨r, rfl⟩
    · simp
    · rw [fits_at, fits_at, ih]

/-- A longer bound admits the containers that a shorter one does. -/
theorem ending_mono {m : Nat} (h : n ≤ m) : ending ties n ⊆ ending ties m := by
  intro q hq
  simp only [ending, Finset.mem_filter] at hq ⊢
  exact ⟨hq.1, fits_mono hq.2 h⟩

/-- As many containers are admitted as steps, or no longer bound admits further ones. -/
theorem le_card_ending (ties : Knot) (n : Nat) :
    n ≤ (ending ties n).card ∨ ∀ m, ending ties (n + m) = ending ties n := by
  induction n with
  | zero => exact .inl (Nat.zero_le _)
  | succ n ih =>
    by_cases hs : ending ties n = ending ties (n + 1)
    · refine .inr fun m => ?_
      have hm := ending_stable hs (1 + m)
      rw [Nat.add_assoc, hm, hs]
    · rcases ih with ih | ih
      · refine .inl (Nat.lt_of_le_of_lt ih (Finset.card_lt_card ?_))
        exact Finset.ssubset_iff_subset_ne.mpr ⟨ending_mono (Nat.le_succ n), hs⟩
      · exact absurd (ih 1).symm hs

/-- A walk through a knot that ends is no longer than the knot has containers. -/
theorem fits_size (h : (Value.knot ties p).fits n = true) :
    (Value.knot ties p).fits ties.size = true := by
  by_cases hp : p < ties.size
  · have hin : p ∈ ending ties n := by simp [ending, hp, h]
    have hall : p ∈ ending ties ties.size := by
      rcases le_card_ending ties ties.size with hc | hs
      · have hsub : ending ties ties.size ⊆ Finset.range ties.size := Finset.filter_subset _ _
        rw [Finset.eq_of_subset_of_card_le hsub (by simpa using hc)]
        simpa using hp
      · have := ending_mono (Nat.le_add_left n ties.size) hin
        rwa [hs n] at this
    exact (Finset.mem_filter.mp hall).2
  · exact fits_knot_of_size_le (Nat.not_lt.mp hp)

end Knots

/-- A walk that ends is no longer than the value is deep. -/
theorem fits_depth {n : Nat} {v : Value} (h : v.fits n = true) : v.fits v.depth = true := by
  induction n generalizing v with
  | zero => exact fits_mono h (Nat.zero_le _)
  | succ n ih =>
    have hp := fits_succ.mp h
    cases v with
    | atom key => exact fits_atom _ key
    | list items =>
      exact fits_succ.mpr fun w hw => fits_mono (ih (hp w hw)) (depth_le_depthOfItems hw)
    | pair a b =>
      have ha := ih (hp a (by simp [parts, shape]))
      have hb := ih (hp b (by simp [parts, shape]))
      refine fits_succ.mpr fun w hw => ?_
      have hw : w = a ∨ w = b := by simpa [parts, shape] using hw
      rcases hw with rfl | rfl
      · exact fits_mono ha (Nat.le_max_left _ _)
      · exact fits_mono hb (Nat.le_max_right _ _)
    | map entries =>
      refine fits_succ.mpr fun w hw => ?_
      obtain ⟨e, he, rfl⟩ := List.mem_map.mp hw
      exact fits_mono (ih (hp e.2 hw)) (depth_le_depthOfEntries he)
    | set items => rfl
    | knot ties p => exact fits_size h

/-- A value is finite as soon as some bound holds for all walks into it. -/
theorem isFinite_iff {v : Value} : v.isFinite = true ↔ ∃ n, v.fits n = true :=
  ⟨fun h => ⟨_, h⟩, fun ⟨_, h⟩ => fits_depth h⟩

/-- The parts of a finite value are finite. -/
theorem isFinite_of_mem_parts {v w : Value} (h : v.isFinite = true) (hw : w ∈ v.parts) :
    w.isFinite = true :=
  isFinite_iff.mpr ⟨_, fits_of_mem_parts h hw⟩

end ZodSchemas.Value
