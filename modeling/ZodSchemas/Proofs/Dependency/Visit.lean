import ZodSchemas.Dependency.Sequence
import ZodSchemas.Proofs.Value.Keys

/-!
# Depth-first visits

Placing a name inserts a block of names: those that it depends on and that were
not placed before, each behind its own, and at the end the name itself. A visit
says which names the block holds without positions, counts or a bound on the
depth; its derivations follow the recursion of placing step by step, so that a
visit exists says that placing ends. The main statement is that the order of a
map is the block of the visit of all its keys.
-/

namespace ZodSchemas

/-- Visit names one after another, given what remains; what remains then and the names in the
order in which their visits end come with it. -/
inductive Visits : List Key → DependencyMap → DependencyMap → List Key → Prop where
  /-- There is nothing to visit. -/
  | nil (remaining : DependencyMap) : Visits [] remaining remaining []
  /-- A name that does not remain is passed over. -/
  | skip {name : Key} {names : List Key} {remaining rest : DependencyMap} {block : List Key}
      (gone : Entries.find? name remaining = none) (others : Visits names remaining rest block) :
      Visits (name :: names) remaining rest block
  /-- A name that remains is taken out, and ends after all that it depends on. -/
  | visit {name : Key} {names dependencies : List Key} {remaining middle rest : DependencyMap}
      {inside block : List Key} (found : Entries.find? name remaining = some dependencies)
      (inner : Visits dependencies (Entries.erase name remaining) middle inside)
      (others : Visits names middle rest block) :
      Visits (name :: names) remaining rest (inside ++ name :: block)

namespace Visits

variable {names others block back : List Key} {remaining middle rest : DependencyMap}

/-- Two visits in a row are the visit of both lists of names. -/
theorem append (h : Visits names remaining middle block) (ho : Visits others middle rest back) :
    Visits (names ++ others) remaining rest (block ++ back) := by
  induction h with
  | nil remaining => exact ho
  | skip gone _ ih => exact skip gone (ih ho)
  | visit found inner _ _ ih =>
    rw [List.append_assoc, List.cons_append, List.cons_append]
    exact visit found inner (ih ho)

/-- A visit takes names out and moves none. -/
theorem sublist (h : Visits names remaining rest block) : rest.Sublist remaining := by
  induction h with
  | nil remaining => exact List.Sublist.refl _
  | skip _ _ ih => exact ih
  | visit _ _ _ ihi iho => exact iho.trans (ihi.trans (Entries.erase_sublist _ _))

/-- The keys of what remains differ after a visit as they did before. -/
theorem keysDiffer (h : Visits names remaining rest block)
    (hd : KeysDiffer (Entries.keys remaining)) : KeysDiffer (Entries.keys rest) :=
  hd.sublist (Entries.keys_sublist h.sublist)

/-- No name that was visited remains. -/
theorem gone (h : Visits names remaining rest block) (hd : KeysDiffer (Entries.keys remaining))
    {name : Key} (hn : name ∈ names) : Entries.has name rest = false := by
  induction h with
  | nil remaining => simp at hn
  | skip gone others ih =>
    rcases List.mem_cons.mp hn with rfl | hn
    · rw [← Bool.not_eq_true]
      intro hr
      obtain ⟨listed, hl⟩ := Entries.exists_find? hr
      rw [Entries.find?_of_sublist others.sublist hd hl] at gone
      simp at gone
    · exact ih hd hn
  | @visit first names dependencies remaining middle rest inside block found inner others _ ih =>
    have he : Entries.has first (Entries.erase first remaining) =
        (Entries.has first remaining && !first.same first) := Entries.has_erase hd
    have hs := hd.sublist (Entries.keys_sublist (Entries.erase_sublist first remaining))
    rcases List.mem_cons.mp hn with rfl | hn
    · rw [← Bool.not_eq_true]
      intro hr
      obtain ⟨listed, hl⟩ := Entries.exists_find? hr
      have hf := Entries.find?_of_sublist (others.sublist.trans inner.sublist) hs hl
      rw [Entries.has_of_find? hf, Key.same_self, Bool.not_true, Bool.and_false] at he
      simp at he
    · exact ih (inner.keysDiffer hs) hn

/-- A visit of a name that remains leaves fewer names. -/
theorem length_lt (h : Visits names remaining rest block)
    (hd : KeysDiffer (Entries.keys remaining)) {name : Key} (hn : name ∈ names)
    (hr : Entries.has name remaining = true) : rest.length < remaining.length := by
  refine Nat.lt_of_le_of_ne h.sublist.length_le fun he => ?_
  have hg := h.gone hd hn
  rw [h.sublist.eq_of_length he, hr] at hg
  simp at hg

end Visits

namespace Sequencer

/-- A name inserted behind a front stands between it and what follows. -/
theorem insertIdx_length (name : Key) (front back : List Key) :
    (front ++ back).insertIdx front.length name = front ++ name :: back := by
  induction front with
  | nil => rfl
  | cons k front ih => exact congrArg (k :: ·) ih

/-- Placing names one after another inserts the block of their visit and counts it. The bound on
the depth is never met: every name that is placed takes one out of what remains. -/
theorem placeEach_visits {fuel : Nat} (names : List Key) (remaining : DependencyMap)
    (hf : remaining.length ≤ fuel) (front back : List Key) :
    ∃ rest block, Visits names remaining rest block ∧
      placeEach (placeWithin fuel) names ⟨remaining, front ++ back⟩ front.length =
        (⟨rest, front ++ block ++ back⟩, block.length) := by
  induction fuel generalizing names remaining front back with
  | zero =>
    obtain rfl : remaining = [] := List.eq_nil_of_length_eq_zero (Nat.le_zero.mp hf)
    refine ⟨[], [], ?_, ?_⟩
    · induction names with
      | nil => exact .nil _
      | cons name names ih => exact .skip rfl ih
    · rw [List.append_nil]
      induction names with
      | nil => rfl
      | cons name names ih =>
        rw [placeEach, placeWithin]
        simp only [Nat.add_zero, ih, List.length_nil]
  | succ fuel ih =>
    induction names generalizing remaining front with
    | nil => exact ⟨remaining, [], .nil _, by rw [List.append_nil]; rfl⟩
    | cons name names ihn =>
      rw [placeEach, placeWithin]
      cases hr : Entries.find? name remaining with
      | none =>
        obtain ⟨rest, block, hv, he⟩ := ihn remaining hf front
        refine ⟨rest, block, .skip hr hv, ?_⟩
        simp only [Nat.add_zero, he, Nat.zero_add]
      | some dependencies =>
        have hl := Entries.length_erase (Entries.has_of_find? hr)
        obtain ⟨middle, inside, hi, he⟩ := ih dependencies (Entries.erase name remaining)
          (by omega) front (name :: back)
        have hm := hi.sublist.length_le
        obtain ⟨rest, block, hv, ho⟩ := ihn middle (by omega) (front ++ (inside ++ [name]))
        refine ⟨rest, inside ++ name :: block, .visit hr hi hv, ?_⟩
        dsimp only
        rw [insertIdx_length, he]
        simp only [List.length_append, List.length_singleton, List.append_assoc,
          List.cons_append, List.nil_append] at ho ⊢
        simp only [ho, List.length_cons, Prod.mk.injEq, true_and]
        omega

/-- Placing a name behind a front inserts the block of its visit and counts it. -/
theorem place_visits (name : Key) (remaining : DependencyMap) (front back : List Key) :
    ∃ rest block, Visits [name] remaining rest block ∧
      place ⟨remaining, front ++ back⟩ name front.length =
        (⟨rest, front ++ block ++ back⟩, block.length) := by
  obtain ⟨rest, block, hv, he⟩ :=
    placeEach_visits [name] remaining (Nat.le_refl _) front back
  exact ⟨rest, block, hv, he⟩

/-- Placing the first remaining name until none remains appends the block of the visit of any
names that list the remaining ones in their order. -/
theorem runWithin_visits {fuel : Nat} {names : List Key} {remaining : DependencyMap}
    (hf : remaining.length ≤ fuel) (hd : KeysDiffer (Entries.keys remaining))
    (hn : names.filter (fun k => Entries.has k remaining) = Entries.keys remaining)
    (front : List Key) :
    ∃ block, Visits names remaining [] block ∧
      runWithin fuel ⟨remaining, front⟩ = ⟨[], front ++ block⟩ := by
  induction names generalizing fuel remaining front with
  | nil =>
    obtain rfl : remaining = [] := List.map_eq_nil_iff.mp hn.symm
    refine ⟨[], .nil _, ?_⟩
    rw [List.append_nil]
    cases fuel <;> rfl
  | cons name names ih =>
    cases hr : Entries.find? name remaining with
    | none =>
      rw [List.filter_cons_of_neg (by simp [Entries.has, hr])] at hn
      obtain ⟨block, hv, he⟩ := ih hf hd hn front
      exact ⟨block, .skip hr hv, he⟩
    | some dependencies =>
      obtain ⟨rest, block, hv, hp⟩ := place_visits name remaining front []
      have hg : Entries.has name rest = false := hv.gone hd (by simp)
      have hk := Entries.filter_has_of_sublist hv.sublist hd hn
      rw [List.filter_cons_of_neg (by simp [hg])] at hk
      have hl := hv.length_lt hd (by simp) (Entries.has_of_find? hr)
      obtain ⟨fuel, rfl⟩ : ∃ i, fuel = i + 1 := ⟨fuel - 1, by omega⟩
      have hb : rest.length ≤ fuel := by omega
      obtain ⟨back, hb, he⟩ := ih hb (hv.keysDiffer hd) hk (front ++ block)
      refine ⟨block ++ back, hv.append hb, ?_⟩
      rw [List.filter_cons_of_pos (by simp [Entries.has, hr])] at hn
      cases remaining with
      | nil => simp [Entries.find?] at hr
      | cons e tail =>
        obtain ⟨first, listed⟩ := e
        obtain rfl : name = first := (List.cons.inj hn).1
        rw [List.append_nil, List.append_nil] at hp
        rw [runWithin]
        simp only [hp, he, List.append_assoc]

end Sequencer

/-- The order of a map is the block of the visit of all its keys, after which none remains. -/
theorem sequence_visits (pairs : DependencyMap) :
    Visits (Entries.keys (Entries.ofPairs pairs)) (Entries.ofPairs pairs) [] (sequence pairs) := by
  have hd := Entries.keysDiffer_ofPairs pairs
  obtain ⟨block, hv, he⟩ := Sequencer.runWithin_visits (Nat.le_refl _) hd
    (Entries.keys_eq_filter (List.Sublist.refl _) hd).symm []
  rw [sequence, Sequencer.run, he]
  exact hv

end ZodSchemas
