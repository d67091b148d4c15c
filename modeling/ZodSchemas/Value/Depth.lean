import ZodSchemas.Value.Basic

/-!
# Depth of values

The depth of a value counts the containers around its innermost part. What a
container holds is less deep than the container, so a walk that enters a part
at every step ends after as many steps. A knot counts as deep as it has
containers: a longer walk through it comes back to one of them.
-/

namespace ZodSchemas.Value

mutual

/-- The number of containers around the innermost part. -/
def depth : Value → Nat
  | .atom _ => 0
  | .list items => depthOfItems items + 1
  | .pair a b => max a.depth b.depth + 1
  | .map entries => depthOfEntries entries + 1
  | .set _ => 1
  | .knot ties _ => ties.size

/-- The greatest depth of some items. -/
def depthOfItems : List Value → Nat
  | [] => 0
  | v :: rest => max v.depth (depthOfItems rest)

/-- The greatest depth of the values of some entries. -/
def depthOfEntries : List (Key × Value) → Nat
  | [] => 0
  | (_, v) :: rest => max v.depth (depthOfEntries rest)

end

/-- An item is no deeper than the deepest. -/
theorem depth_le_depthOfItems {v : Value} {items : List Value} (h : v ∈ items) :
    v.depth ≤ depthOfItems items := by
  induction items with
  | nil => simp at h
  | cons w rest ih =>
    simp only [depthOfItems]
    rcases List.mem_cons.mp h with rfl | h
    · exact Nat.le_max_left _ _
    · exact Nat.le_trans (ih h) (Nat.le_max_right _ _)

/-- The value of an entry is no deeper than the deepest. -/
theorem depth_le_depthOfEntries {e : Key × Value} {entries : List (Key × Value)}
    (h : e ∈ entries) : e.2.depth ≤ depthOfEntries entries := by
  induction entries with
  | nil => simp at h
  | cons f rest ih =>
    obtain ⟨k, w⟩ := f
    simp only [depthOfEntries]
    rcases List.mem_cons.mp h with rfl | h
    · exact Nat.le_max_left _ _
    · exact Nat.le_trans (ih h) (Nat.le_max_right _ _)

end ZodSchemas.Value
