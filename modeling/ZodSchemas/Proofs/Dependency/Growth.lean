import ZodSchemas.Proofs.Dependency.Visit

/-!
# Orders of growing maps

A visit is determined by what remains, and entries that none of the visited
names leads to are not in its way. So names that are added behind a map whose
dependencies know nothing of them are placed when all others are, and the order
of the map is the front of the new one.
-/

namespace ZodSchemas

/-- Erasing a key that is present leaves what stands behind as it is. -/
theorem Entries.erase_append_of_has {α : Type} {key : Key} {entries : Entries α}
    (h : has key entries = true) (others : Entries α) :
    erase key (entries ++ others) = erase key entries ++ others := by
  induction entries with
  | nil => simp [has, find?] at h
  | cons e rest ih =>
    obtain ⟨k, a⟩ := e
    rw [List.cons_append, erase, erase]
    split
    · rfl
    · next hk =>
      have hr : has key rest = true := by simpa [has, find?, hk] using h
      rw [ih hr, List.cons_append]

namespace Visits

variable {names block found : List Key} {remaining rest left more : DependencyMap}

/-- A visit determines what remains and in which order the names end. -/
theorem unique (h : Visits names remaining rest block) (ho : Visits names remaining left found) :
    rest = left ∧ block = found := by
  induction h generalizing left found with
  | nil remaining =>
    cases ho
    exact ⟨rfl, rfl⟩
  | skip gone _ ih =>
    cases ho with
    | skip _ others => exact ih others
    | visit there _ _ => simp [gone] at there
  | visit there _ _ ihi iho =>
    cases ho with
    | skip gone _ => simp [gone] at there
    | visit again inner others =>
      obtain rfl := Option.some.inj (there.symm.trans again)
      obtain ⟨rfl, rfl⟩ := ihi inner
      obtain ⟨rfl, rfl⟩ := iho others
      exact ⟨rfl, rfl⟩

/-- A visit that does not lead to the names of more entries passes them by. -/
theorem append_map (h : Visits names remaining rest block)
    (hn : ∀ name ∈ names, Entries.has name more = false)
    (hd : ∀ e ∈ remaining, ∀ d ∈ e.2, Entries.has d more = false) :
    Visits names (remaining ++ more) (rest ++ more) block := by
  induction h with
  | nil remaining => exact .nil _
  | skip gone _ ih =>
    refine .skip ?_ (ih (fun name hm => hn name (List.mem_cons_of_mem _ hm)) hd)
    rw [Entries.find?_append_of_not_has (hn _ (by simp)), gone]
  | @visit name _ listed remaining _ _ _ _ there inner _ ihi iho =>
    obtain ⟨k, -, hm⟩ := Entries.mem_of_find? there
    have erased : ∀ e ∈ Entries.erase name remaining, ∀ d ∈ e.2, Entries.has d more = false :=
      fun e he => hd e ((Entries.erase_sublist name remaining).subset he)
    have again : Entries.find? name (remaining ++ more) = some listed := by
      rw [Entries.find?_append, there, Option.some_or]
    refine .visit again ?_ (iho ?_ ?_)
    · rw [Entries.erase_append_of_has (Entries.has_of_find? there)]
      exact ihi (hd _ hm) erased
    · exact fun name hm => hn name (List.mem_cons_of_mem _ hm)
    · exact fun e he => erased e (inner.sublist.subset he)

/-- Every name of a block was asked for, or is one that another name depends on. -/
theorem mem_of_mem_block (h : Visits names remaining rest block) {name : Key}
    (hn : name ∈ block) : name ∈ names ∨ ∃ e ∈ remaining, name ∈ e.2 := by
  induction h with
  | nil remaining => simp at hn
  | skip _ _ ih => exact (ih hn).imp_left (List.mem_cons_of_mem _)
  | @visit first _ _ remaining _ _ _ _ there inner _ ihi iho =>
    have erased : ∀ e ∈ Entries.erase first remaining, e ∈ remaining := fun e he =>
      (Entries.erase_sublist first remaining).subset he
    rcases List.mem_append.mp hn with hn | hn
    · rcases ihi hn with hm | ⟨e, he, hm⟩
      · obtain ⟨k, -, hk⟩ := Entries.mem_of_find? there
        exact .inr ⟨_, hk, hm⟩
      · exact .inr ⟨e, erased e he, hm⟩
    · rcases List.mem_cons.mp hn with rfl | hn
      · exact .inl (by simp)
      · rcases iho hn with hm | ⟨e, he, hm⟩
        · exact .inl (List.mem_cons_of_mem _ hm)
        · exact .inr ⟨e, erased e (inner.sublist.subset he), hm⟩

end Visits

/-- Names that are added behind a map whose dependencies know nothing of them come behind all
others. -/
theorem sequence_append {map more : DependencyMap} (hd : KeysDiffer (Entries.keys (map ++ more)))
    (hn : ∀ e ∈ map, ∀ d ∈ e.2, Entries.has d more = false) :
    sequence (map ++ more) = sequence map ++ sequence more := by
  have hkeys := Entries.keys_append map more
  rw [hkeys] at hd
  obtain ⟨hfront, hback, -⟩ := List.pairwise_append.mp hd
  have whole := sequence_visits (map ++ more)
  have front := sequence_visits map
  have back := sequence_visits more
  rw [Entries.ofPairs_eq_self (hkeys ▸ hd), hkeys] at whole
  rw [Entries.ofPairs_eq_self hfront] at front
  rw [Entries.ofPairs_eq_self hback] at back
  have hnew : ∀ name ∈ Entries.keys map, Entries.has name more = false := by
    intro name hm
    rw [Entries.has_eq_isAmong]
    exact hd.not_among_back hm
  exact (whole.unique ((front.append_map hnew hn).append back)).2

end ZodSchemas
