import Mathlib.Algebra.Group.Nat.Defs
import Mathlib.Data.List.Perm.Subperm
import ZodSchemas.Value.Display
import ZodSchemas.Traced

/-!
# Values that cannot be written

Nothing but an integer with too many digits keeps a value from being written.
A container inside itself does not: what is written of it is a hint, and no
walk through a knot comes by more containers than the knot has.
-/

namespace ZodSchemas

/-- An integer has no written form when it has too many digits. -/
theorem Numeral.integer?_eq_none {n : Int} :
    integer? n = none ↔ 10 ^ digitLimit ≤ n.natAbs := by
  have hl : (decimal n.natAbs).length ≤ digitLimit ↔ n.natAbs < 10 ^ digitLimit := by
    rw [decimal, Text.ofChars, List.length_map]
    exact Nat.length_toDigits_le_iff (by decide) (by decide)
  unfold integer?
  split
  · next h => simpa using hl.mp h
  · next h => simpa using mt hl.mpr h

/-- The least number with too many digits. -/
def greatNumber : Nat := 10 ^ Numeral.digitLimit

/-- The least number with too many digits has no written form. -/
theorem integer?_greatNumber : Numeral.integer? greatNumber = none := by
  rw [Numeral.integer?_eq_none, Int.natAbs_natCast]
  exact Nat.le_refl greatNumber

/-- The least number with too many digits is greater than the length of a short text. -/
theorem one_lt_greatNumber : 1 < greatNumber := Nat.one_lt_pow (by decide) (by decide)

/-- A key has no written form when it has too many digits somewhere. -/
theorem Key.fault_of_quoted {key : Key} {fault : Fault} (h : key.quoted = .error fault) :
    fault = .tooManyDigits := by
  induction key with
  | int n =>
    rw [quoted] at h
    split at h
    · simp at h
    · exact (Except.error.inj h).symm
  | pair a b iha ihb =>
    rw [quoted] at h
    rcases exceptBind_eq_error.mp h with h | ⟨first, -, h⟩
    · exact iha h
    · rcases exceptBind_eq_error.mp h with h | ⟨second, -, h⟩
      · exact ihb h
      · simp at h
  | _ => simp [quoted] at h

/-- The same holds of a key on its own. -/
theorem Key.fault_of_plain {key : Key} {fault : Fault} (h : key.plain = .error fault) :
    fault = .tooManyDigits := by
  unfold plain at h
  split at h
  · simp at h
  · simp at h
  · simp at h
  · exact fault_of_quoted h

/-- The same holds of a set. -/
theorem fault_of_quotedSet {items : List Key} {fault : Fault}
    (h : quotedSet items = .error fault) : fault = .tooManyDigits := by
  unfold quotedSet at h
  split at h
  · simp at h
  · obtain ⟨k, -, hk⟩ := exists_of_mapM_eq_error (exceptMap_eq_error.mp h)
    exact Key.fault_of_quoted hk

namespace Value

/-- Different places of a knot are no more than its containers. -/
theorem length_le_of_nodup {n : Nat} {places : List Nat} (hd : places.Nodup)
    (h : ∀ p ∈ places, p < n) : places.length ≤ n := by
  have hs := hd.subperm fun p hp => List.mem_range.mpr (h p hp)
  simpa using hs.length_le

/-- What is quoted at a place of a knot lacks a written form for its digits only: the places
around are different, and there are not more of them than containers. -/
theorem fault_of_quotedPlace {knot : Knot} {fuel : Nat} {around : List Nat} {n : Nat}
    {fault : Fault} (hd : around.Nodup) (hi : ∀ p ∈ around, p < knot.size)
    (hf : knot.size < fuel + around.length) (h : quotedPlace knot fuel around n = .error fault) :
    fault = .tooManyDigits := by
  induction fuel generalizing around n fault with
  | zero =>
    have hl := length_le_of_nodup hd hi
    omega
  | succ fuel ih =>
    rw [quotedPlace] at h
    split at h
    · simp at h
    · next hn =>
      have inside : ∀ (m : Nat) (e : Fault), n < knot.size →
          quotedPlace knot fuel (n :: around) m = .error e → e = .tooManyDigits := by
        intro m e hsize he
        refine ih (List.nodup_cons.mpr ⟨hn, hd⟩) ?_ (by rw [List.length_cons]; omega) he
        intro p hp
        rcases List.mem_cons.mp hp with rfl | hp
        · exact hsize
        · exact hi p hp
      cases hs : knot[n]? with
      | none => simp [hs, Key.quoted] at h
      | some loop =>
        have hsize : n < knot.size := (Array.getElem?_eq_some_iff.mp hs).1
        cases loop with
        | list items =>
          simp only [hs] at h
          obtain ⟨strand, -, he⟩ := exists_of_mapM_eq_error (exceptMap_eq_error.mp h)
          cases strand with
          | key key => exact Key.fault_of_quoted he
          | place m => exact inside m fault hsize he
        | pair a b =>
          simp only [hs] at h
          obtain ⟨strand, -, he⟩ := exists_of_mapM_eq_error (exceptMap_eq_error.mp h)
          cases strand with
          | key key => exact Key.fault_of_quoted he
          | place m => exact inside m fault hsize he
        | map entries =>
          simp only [hs] at h
          rcases exceptBind_eq_error.mp h with h | ⟨parts, -, h⟩
          · obtain ⟨⟨key, strand⟩, -, he⟩ := exists_of_mapM_eq_error h
            rcases exceptBind_eq_error.mp he with he | ⟨name, -, he⟩
            · exact Key.fault_of_quoted he
            · rcases exceptBind_eq_error.mp he with he | ⟨t, -, he⟩
              · cases strand with
                | key key => exact Key.fault_of_quoted he
                | place m => exact inside m fault hsize he
              · simp at he
          · simp at h
        | set items =>
          simp only [hs] at h
          exact fault_of_quotedSet h

mutual

/-- A value has no written form when it has too many digits somewhere. -/
theorem fault_of_quoted : ∀ (v : Value) (fault : Fault), v.quoted = .error fault →
    fault = .tooManyDigits
  | .atom key, fault, h => Key.fault_of_quoted (by simpa [quoted] using h)
  | .list items, fault, h => by
    rw [quoted] at h
    rcases exceptBind_eq_error.mp h with h | ⟨parts, -, h⟩
    · exact fault_of_quotedItems items fault h
    · simp at h
  | .pair a b, fault, h => by
    rw [quoted] at h
    rcases exceptBind_eq_error.mp h with h | ⟨first, -, h⟩
    · exact fault_of_quoted a fault h
    · rcases exceptBind_eq_error.mp h with h | ⟨second, -, h⟩
      · exact fault_of_quoted b fault h
      · simp at h
  | .map entries, fault, h => by
    rw [quoted] at h
    rcases exceptBind_eq_error.mp h with h | ⟨parts, -, h⟩
    · exact fault_of_quotedEntries entries fault h
    · simp at h
  | .set items, fault, h => fault_of_quotedSet (by simpa [quoted] using h)
  | .knot ties n, fault, h => by
    rw [quoted] at h
    exact fault_of_quotedPlace List.nodup_nil (by simp) (by simp) h

/-- Items have no written form when one of them has none. -/
theorem fault_of_quotedItems : ∀ (items : List Value) (fault : Fault),
    quotedItems items = .error fault → fault = .tooManyDigits
  | [], fault, h => by simp [quotedItems] at h
  | v :: rest, fault, h => by
    rw [quotedItems] at h
    rcases exceptBind_eq_error.mp h with h | ⟨first, -, h⟩
    · exact fault_of_quoted v fault h
    · rcases exceptBind_eq_error.mp h with h | ⟨others, -, h⟩
      · exact fault_of_quotedItems rest fault h
      · simp at h

/-- Entries have no written form when a key or a value has none. -/
theorem fault_of_quotedEntries : ∀ (entries : List (Key × Value)) (fault : Fault),
    quotedEntries entries = .error fault → fault = .tooManyDigits
  | [], fault, h => by simp [quotedEntries] at h
  | (k, v) :: rest, fault, h => by
    rw [quotedEntries] at h
    rcases exceptBind_eq_error.mp h with h | ⟨name, -, h⟩
    · exact Key.fault_of_quoted h
    · rcases exceptBind_eq_error.mp h with h | ⟨first, -, h⟩
      · exact fault_of_quoted v fault h
      · rcases exceptBind_eq_error.mp h with h | ⟨others, -, h⟩
        · exact fault_of_quotedEntries rest fault h
        · simp at h

end

/-- The same holds of a value on its own. -/
theorem fault_of_plain {v : Value} {fault : Fault} (h : v.plain = .error fault) :
    fault = .tooManyDigits := by
  unfold plain at h
  split at h
  · exact Key.fault_of_plain h
  · exact fault_of_quoted _ fault h

end Value

end ZodSchemas
