import Mathlib.Data.List.Basic
import ZodSchemas.Proofs.Dependency.Visit

/-!
# Depth-first post-order

A depth-first search goes through the keys of a map in their order. A name is
marked when it is entered, all that it depends on is visited from left to right,
and when it is left it goes to the end of the order; names that are marked and
names that are no keys are passed over. So a name gets its place last, whereas
placing inserts it first and what it depends on in front of it. The main
statement is that both lead to the same order.
-/

namespace ZodSchemas

/-- How far a depth-first search has come. -/
structure Search where
  /-- The names that were entered. -/
  visited : List Key
  /-- The names that were left, in that order. -/
  finished : List Key

namespace Search

/-- Mark a name. -/
def enter (s : Search) (name : Key) : Search := { s with visited := name :: s.visited }

/-- Put a name at the end of the order. -/
def leave (s : Search) (name : Key) : Search := { s with finished := s.finished ++ [name] }

/-- The keys of a map that are not marked. -/
def unmarked (map : DependencyMap) (s : Search) : List Key :=
  (Entries.keys map).filter fun k => !k.isAmong s.visited

variable {map remaining rest : DependencyMap} {s t : Search} {name : Key}
  {names block dependencies : List Key}

/-- What is not marked later was not marked before. -/
theorem unmarked_sublist (h : s.visited ⊆ t.visited) :
    (t.unmarked map).Sublist (s.unmarked map) := by
  refine List.monotone_filter_right _ fun k hk => ?_
  have ht : k.isAmong t.visited = false := by simpa using hk
  rw [Bool.not_eq_true', ← Bool.not_eq_true]
  intro hs
  obtain ⟨other, ho, hsame⟩ := Key.isAmong_iff.mp hs
  rw [Key.isAmong_iff.mpr ⟨other, h ho, hsame⟩] at ht
  simp at ht

/-- A key that is entered for the first time is one less that is not marked. -/
theorem length_unmarked_lt (hv : ¬ name.isAmong s.visited = true)
    (hf : Entries.find? name map = some dependencies) (h : (s.enter name).visited ⊆ t.visited) :
    (t.unmarked map).length < (s.unmarked map).length := by
  have hsub : ((s.enter name).unmarked map).Sublist (s.unmarked map) :=
    unmarked_sublist (List.subset_cons_self _ _)
  obtain ⟨k, hk, hm⟩ := Entries.mem_of_find? hf
  have before : k ∈ s.unmarked map := by
    refine List.mem_filter.mpr ⟨List.mem_map_of_mem hm, ?_⟩
    simpa [Key.isAmong_congr hk] using hv
  have after : k ∉ (s.enter name).unmarked map := by
    intro hin
    have hmarked := (List.mem_filter.mp hin).2
    simp [Key.isAmong_congr hk, enter] at hmarked
  have entered : ((s.enter name).unmarked map).length < (s.unmarked map).length := by
    refine Nat.lt_of_le_of_ne hsub.length_le fun he => after ?_
    rwa [hsub.eq_of_length he]
  exact Nat.lt_of_le_of_lt (unmarked_sublist h).length_le entered

/-- Visit names one after another. What was marked stays so, which is why the search ends: each
name that is entered leaves one key less to enter. -/
def visit (map : DependencyMap) :
    List Key → (s : Search) → { t : Search // s.visited ⊆ t.visited }
  | [], s => ⟨s, List.Subset.refl _⟩
  | name :: names, s =>
    if _marked : name.isAmong s.visited = true then visit map names s
    else
      match _found : Entries.find? name map with
      | none => visit map names s
      | some dependencies =>
        let inside := visit map dependencies (s.enter name)
        let behind := visit map names (inside.1.leave name)
        ⟨behind.1, fun _ hk => behind.2 (inside.2 (List.mem_cons_of_mem _ hk))⟩
termination_by names s => ((s.unmarked map).length, names.length)
decreasing_by
  · exact .right _ (Nat.lt_succ_self _)
  · exact .right _ (Nat.lt_succ_self _)
  · exact .left _ _ (length_unmarked_lt _marked _found (List.Subset.refl _))
  · exact .left _ _ (length_unmarked_lt _marked _found inside.2)

/-- A name that is marked is passed over. -/
theorem visit_of_marked (h : name.isAmong s.visited = true) :
    (visit map (name :: names) s).1 = (visit map names s).1 := by
  rw [visit, dif_pos h]

/-- A name that is no key is passed over. -/
theorem visit_of_unknown (h : Entries.find? name map = none) :
    (visit map (name :: names) s).1 = (visit map names s).1 := by
  rw [visit]
  split
  · rfl
  · split
    · rfl
    · next found => simp [h] at found

/-- A new key is entered, left after all that it depends on, and followed by the others. -/
theorem visit_of_new (hv : name.isAmong s.visited = false)
    (hf : Entries.find? name map = some dependencies) :
    (visit map (name :: names) s).1 =
      (visit map names ((visit map dependencies (s.enter name)).1.leave name)).1 := by
  rw [visit, dif_neg (by simp [hv])]
  split
  · next found => simp [hf] at found
  · next found =>
    obtain rfl := Option.some.inj (hf.symm.trans found)
    rfl

/-- What remains to be placed are the keys that are not marked. -/
def IsRemainder (map : DependencyMap) (s : Search) (remaining : DependencyMap) : Prop :=
  ∀ key, Entries.find? key remaining =
    if key.isAmong s.visited then none else Entries.find? key map

/-- Entering a name takes it out of what remains. -/
theorem IsRemainder.enter (h : IsRemainder map s remaining)
    (hd : KeysDiffer (Entries.keys remaining)) (name : Key) :
    IsRemainder map (s.enter name) (Entries.erase name remaining) := by
  intro key
  rw [Entries.find?_erase hd, h key, Search.enter, Key.isAmong_cons]
  cases name.same key <;> simp

/-- The block that a visit inserts is what a search puts at the end of its order, and what remains
after the visit are the keys that the search has not marked. -/
theorem visit_of_visits (h : Visits names remaining rest block)
    (hd : KeysDiffer (Entries.keys remaining)) (hs : IsRemainder map s remaining) :
    IsRemainder map (visit map names s).1 rest ∧
      (visit map names s).1.finished = s.finished ++ block := by
  induction h generalizing s with
  | nil remaining =>
    rw [visit]
    exact ⟨hs, (List.append_nil _).symm⟩
  | @skip name names remaining rest block gone _ ih =>
    have hskip : (visit map (name :: names) s).1 = (visit map names s).1 := by
      have hleft := hs name
      rw [gone] at hleft
      cases hv : name.isAmong s.visited with
      | true => exact visit_of_marked hv
      | false => exact visit_of_unknown (by simpa [hv] using hleft.symm)
    rw [hskip]
    exact ih hd hs
  | @visit name names dependencies remaining middle rest inside block found inner _ ihi iho =>
    have hleft := hs name
    rw [found] at hleft
    obtain ⟨hv, hf⟩ : name.isAmong s.visited = false ∧
        Entries.find? name map = some dependencies := by
      cases hv : name.isAmong s.visited with
      | true => simp [hv] at hleft
      | false => exact ⟨rfl, by simpa [hv] using hleft.symm⟩
    have hd' := hd.sublist (Entries.keys_sublist (Entries.erase_sublist name remaining))
    obtain ⟨hinside, hfinished⟩ := ihi hd' (hs.enter hd name)
    rw [visit_of_new hv hf]
    -- Leaving a name marks nothing, so what remains is the same before and after it.
    obtain ⟨hbehind, hend⟩ := iho (inner.keysDiffer hd')
      (s := (visit map dependencies (s.enter name)).1.leave name) hinside
    refine ⟨hbehind, ?_⟩
    rw [hend, leave, hfinished, enter]
    simp only [List.append_assoc, List.cons_append, List.nil_append]

end Search

/-- The names of a map in depth-first post-order. -/
def postOrder (map : DependencyMap) : List Key :=
  (Search.visit map (Entries.keys map) ⟨[], []⟩).1.finished

/-- The names of a map are placed in depth-first post-order. -/
theorem sequence_eq_postOrder (pairs : DependencyMap) :
    sequence pairs = postOrder (Entries.ofPairs pairs) := by
  have hstart : Search.IsRemainder (Entries.ofPairs pairs) ⟨[], []⟩ (Entries.ofPairs pairs) :=
    fun _ => rfl
  obtain ⟨-, hfinished⟩ := Search.visit_of_visits (sequence_visits pairs)
    (Entries.keysDiffer_ofPairs pairs) hstart
  exact hfinished.symm

end ZodSchemas
