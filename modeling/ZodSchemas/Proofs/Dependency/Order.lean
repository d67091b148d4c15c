import ZodSchemas.Proofs.Dependency.Visit

/-!
# Names behind their dependencies

The order of a map holds every name of it once. A name stands behind each name
that it depends on, except where that name leads back to it along the listed
dependencies. What carries the proof is that a visit only meets names that the
visited ones lead to: when a dependency was taken out before but has no place
in front, it was taken out on the way to the name.
-/

namespace ZodSchemas

/-- One name leads to another along the dependencies that a map lists. -/
inductive Reaches (map : DependencyMap) : Key → Key → Prop where
  /-- A name leads to itself. -/
  | self {start goal : Key} (h : start.same goal = true) : Reaches map start goal
  /-- A name leads to all that its dependencies lead to. -/
  | step {start next goal : Key} {dependencies : List Key}
      (found : Entries.find? start map = some dependencies) (listed : next ∈ dependencies)
      (rest : Reaches map next goal) : Reaches map start goal

/-- One name stands in front of another. -/
def StandsBefore (order : List Key) (first second : Key) : Prop :=
  ∃ front back, order = front ++ back ∧ first.isAmong front = true ∧ second.isAmong back = true

/-- A list holds the names of a map, each behind its dependencies where no cycle forbids it. -/
structure IsOrderOf (order : List Key) (map : DependencyMap) : Prop where
  /-- No name comes twice. -/
  differ : KeysDiffer order
  /-- Exactly the names of the map come. -/
  complete : ∀ name, name.isAmong order = Entries.has name map
  /-- A dependency stands in front, or leads back. -/
  ordered : ∀ name dependencies d, Entries.find? name map = some dependencies →
    d ∈ dependencies → Entries.has d map = true → StandsBefore order d name ∨ Reaches map d name

namespace StandsBefore

variable {order : List Key} {first second : Key}

/-- Names keep their places when others are put in front. -/
theorem append_left (front : List Key) (h : StandsBefore order first second) :
    StandsBefore (front ++ order) first second := by
  obtain ⟨a, b, rfl, ha, hb⟩ := h
  exact ⟨front ++ a, b, (List.append_assoc _ _ _).symm, by simp [ha], hb⟩

/-- Names keep their places when others are put behind. -/
theorem append_right (back : List Key) (h : StandsBefore order first second) :
    StandsBefore (order ++ back) first second := by
  obtain ⟨a, b, rfl, ha, hb⟩ := h
  exact ⟨a, b ++ back, List.append_assoc _ _ _, ha, by simp [hb]⟩

/-- Where different names are ordered, those in front of a name stand before it. -/
theorem isAmong_front {front back : List Key} {name d : Key}
    (hd : KeysDiffer (front ++ name :: back)) (h : StandsBefore (front ++ name :: back) d name) :
    d.isAmong front = true := by
  obtain ⟨a, b, hab, ha, hb⟩ := h
  rcases List.append_eq_append_iff.mp hab.symm with ⟨gap, rfl, -⟩ | ⟨gap, rfl, hg⟩
  · rw [Key.isAmong_append, ha, Bool.true_or]
  · cases gap with
    | nil => simpa using ha
    | cons k gap =>
      obtain ⟨rfl, rfl⟩ : name = k ∧ back = gap ++ b := by simpa using hg
      have hn := KeysDiffer.not_among (List.pairwise_append.mp hd).2.1
      rw [Key.isAmong_append, hb, Bool.or_true] at hn
      simp at hn

end StandsBefore

namespace Visits

variable {names block : List Key} {map remaining rest : DependencyMap}

/-- Exactly the names of the block are taken out. -/
theorem has_rest (h : Visits names remaining rest block) (hd : KeysDiffer (Entries.keys remaining))
    (name : Key) :
    Entries.has name rest = (Entries.has name remaining && !name.isAmong block) := by
  induction h with
  | nil remaining => simp
  | skip _ _ ih => exact ih hd
  | @visit first _ _ remaining middle _ inside block _ inner _ ihi iho =>
    have hs := hd.sublist (Entries.keys_sublist (Entries.erase_sublist first remaining))
    rw [iho (inner.keysDiffer hs), ihi hs, Entries.has_erase hd, Key.isAmong_append,
      Key.isAmong_cons, Bool.not_or, Bool.not_or]
    cases Entries.has name remaining <;> cases first.same name <;>
      cases name.isAmong inside <;> rfl

/-- Every name of the block remained before the visit. -/
theorem has_of_isAmong (h : Visits names remaining rest block)
    (hd : KeysDiffer (Entries.keys remaining)) {name : Key} (hn : name.isAmong block = true) :
    Entries.has name remaining = true := by
  induction h with
  | nil remaining => simp at hn
  | skip _ _ ih => exact ih hd hn
  | @visit first _ _ remaining middle _ inside block found inner _ ihi iho =>
    have hs := hd.sublist (Entries.keys_sublist (Entries.erase_sublist first remaining))
    have erased : ∀ k, Entries.has k (Entries.erase first remaining) = true →
        Entries.has k remaining = true := by
      intro k hk
      rw [Entries.has_erase hd, Bool.and_eq_true] at hk
      exact hk.1
    rw [Key.isAmong_append, Key.isAmong_cons, Bool.or_eq_true, Bool.or_eq_true] at hn
    rcases hn with hn | hn | hn
    · exact erased name (ihi hs hn)
    · rw [← Entries.has_congr hn]
      exact Entries.has_of_find? found
    · have hm := iho (inner.keysDiffer hs) hn
      rw [inner.has_rest hs, Bool.and_eq_true] at hm
      exact erased name hm.1

/-- No name comes twice in a block. -/
theorem block_differ (h : Visits names remaining rest block)
    (hd : KeysDiffer (Entries.keys remaining)) : KeysDiffer block := by
  induction h with
  | nil remaining => exact List.Pairwise.nil
  | skip _ _ ih => exact ih hd
  | @visit first _ _ remaining middle _ inside block found inner others ihi iho =>
    have hs := hd.sublist (Entries.keys_sublist (Entries.erase_sublist first remaining))
    have hm := inner.keysDiffer hs
    -- A name of the later block remained after the visits inside.
    have later : ∀ k, k.isAmong block = true →
        Entries.has k (Entries.erase first remaining) = true ∧ k.isAmong inside = false := by
      intro k hk
      have hr := others.has_of_isAmong hm hk
      rw [inner.has_rest hs] at hr
      simpa using hr
    have not_first : ∀ k, Entries.has k (Entries.erase first remaining) = true →
        first.same k = false := by
      intro k hk
      rw [Entries.has_erase hd, Bool.and_eq_true] at hk
      simpa using hk.2
    refine (ihi hs).append (List.pairwise_cons.mpr ⟨fun k hk => ?_, iho hm⟩) fun k hk => ?_
    · exact not_first k (later k (Key.isAmong_of_mem hk)).1
    · rw [Key.isAmong_cons, Bool.or_eq_false_iff]
      refine ⟨not_first k (inner.has_of_isAmong hs (Key.isAmong_of_mem hk)), ?_⟩
      refine Bool.eq_false_iff.mpr fun hb => ?_
      have hi := (later k hb).2
      rw [Key.isAmong_of_mem hk] at hi
      simp at hi

/-- A visit only meets names that the visited ones lead to. -/
theorem reached (h : Visits names remaining rest block) (hd : KeysDiffer (Entries.keys map))
    (hs : remaining.Sublist map) {name : Key} (hn : name.isAmong block = true) :
    ∃ start ∈ names, Reaches map start name := by
  induction h with
  | nil remaining => simp at hn
  | skip _ _ ih =>
    obtain ⟨start, hm, hr⟩ := ih hs hn
    exact ⟨start, List.mem_cons_of_mem _ hm, hr⟩
  | @visit first _ _ remaining middle _ inside block found inner _ ihi iho =>
    have he := (Entries.erase_sublist first remaining).trans hs
    rw [Key.isAmong_append, Key.isAmong_cons, Bool.or_eq_true, Bool.or_eq_true] at hn
    rcases hn with hn | hn | hn
    · obtain ⟨start, hm, hr⟩ := ihi he hn
      exact ⟨first, by simp, .step (Entries.find?_of_sublist hs hd found) hm hr⟩
    · exact ⟨first, by simp, .self hn⟩
    · obtain ⟨start, hm, hr⟩ := iho (inner.sublist.trans he) hn
      exact ⟨start, List.mem_cons_of_mem _ hm, hr⟩

/-- In the block a name stands behind each of its dependencies that remained before the visit,
except where the dependency leads to the name. -/
theorem ordered (h : Visits names remaining rest block) (hd : KeysDiffer (Entries.keys map))
    (hs : remaining.Sublist map) {name d : Key} {dependencies : List Key}
    (hn : name.isAmong block = true) (hf : Entries.find? name map = some dependencies)
    (hl : d ∈ dependencies) (hr : Entries.has d remaining = true) :
    StandsBefore block d name ∨ Reaches map d name := by
  induction h with
  | nil remaining => simp at hn
  | skip _ _ ih => exact ih hs hn hr
  | @visit first _ listed remaining middle _ inside block found inner _ ihi iho =>
    have hk := hd.sublist (Entries.keys_sublist hs)
    have he := (Entries.erase_sublist first remaining).trans hs
    have hke := hd.sublist (Entries.keys_sublist he)
    have hm := Entries.find?_of_sublist hs hd found
    -- The dependency is the name that is taken out first, or is met inside, or remains.
    have where_d : first.same d = true ∨ d.isAmong inside = true ∨
        Entries.has d middle = true := by
      rw [inner.has_rest hke, Entries.has_erase hk, hr]
      cases first.same d <;> cases d.isAmong inside <;> simp
    rw [Key.isAmong_append, Key.isAmong_cons, Bool.or_eq_true, Bool.or_eq_true] at hn
    rcases hn with hn | hn | hn
    · -- The name is met inside, so the name that is taken out first leads to it.
      cases ho : first.same d with
      | true =>
        obtain ⟨start, hstart, hreach⟩ := inner.reached hd he hn
        rw [Entries.find?_congr ho] at hm
        exact .inr (.step hm hstart hreach)
      | false =>
        have hre : Entries.has d (Entries.erase first remaining) = true := by
          rw [Entries.has_erase hk, hr, ho]
          rfl
        exact (ihi he hn hre).imp_left (StandsBefore.append_right _)
    · -- The name is the one that is taken out first: none of its dependencies remains inside.
      rw [← Entries.find?_congr hn, hm, Option.some.injEq] at hf
      subst hf
      rcases where_d with ho | ho | ho
      · exact .inr (.self ((Key.same_left ho).symm.trans hn))
      · exact .inl ⟨inside, first :: block, rfl, ho, by simp [hn]⟩
      · rw [inner.gone hke hl] at ho
        simp at ho
    · -- The name is met later, after all that stands in front of the later block.
      have split : inside ++ first :: block = (inside ++ [first]) ++ block := by simp
      rw [split]
      rcases where_d with ho | ho | ho
      · exact .inl ⟨inside ++ [first], block, rfl, by simp [ho], hn⟩
      · exact .inl ⟨inside ++ [first], block, rfl, by simp [ho], hn⟩
      · exact (iho (inner.sublist.trans he) hn ho).imp_left (StandsBefore.append_left _)

end Visits

/-- The order that names are placed in is an order of the map. -/
theorem isOrderOf_sequence (pairs : DependencyMap) :
    IsOrderOf (sequence pairs) (Entries.ofPairs pairs) := by
  have hd := Entries.keysDiffer_ofPairs pairs
  have hv := sequence_visits pairs
  have complete : ∀ name, name.isAmong (sequence pairs) =
      Entries.has name (Entries.ofPairs pairs) := by
    intro name
    have hr := hv.has_rest hd name
    cases ha : name.isAmong (sequence pairs) with
    | true => exact (hv.has_of_isAmong hd ha).symm
    | false =>
      rw [ha, Bool.not_false, Bool.and_true] at hr
      rw [← hr]
      rfl
  refine ⟨hv.block_differ hd, complete, fun name dependencies d hf hl hr => ?_⟩
  have hn : name.isAmong (sequence pairs) = true := by
    rw [complete, Entries.has_of_find? hf]
  exact hv.ordered hd (List.Sublist.refl _) hn hf hl hr

/-- Placing the names of any map ends, in an order of the map. Where no name leads to another one
and back, every name stands behind all other names that it depends on. -/
theorem sequence_places_dependencies_first (pairs : DependencyMap) :
    Visits (Entries.keys (Entries.ofPairs pairs)) (Entries.ofPairs pairs) [] (sequence pairs) ∧
    IsOrderOf (sequence pairs) (Entries.ofPairs pairs) ∧
    ((∀ a b, Reaches (Entries.ofPairs pairs) a b → Reaches (Entries.ofPairs pairs) b a →
        a.same b = true) →
      ∀ name dependencies d, Entries.find? name (Entries.ofPairs pairs) = some dependencies →
        d ∈ dependencies → Entries.has d (Entries.ofPairs pairs) = true →
        d.same name = false → StandsBefore (sequence pairs) d name) := by
  have ho := isOrderOf_sequence pairs
  refine ⟨sequence_visits pairs, ho, fun acyclic name dependencies d hf hl hr hs => ?_⟩
  rcases ho.ordered name dependencies d hf hl hr with hb | hc
  · exact hb
  · have hback : Reaches (Entries.ofPairs pairs) name d := .step hf hl (.self (Key.same_self d))
    rw [acyclic d name hc hback] at hs
    simp at hs

/-- Overlapping cycles: both of the first two names lead to each other, and all to the last. -/
example : sequence [("A", ["B", "C"]), ("B", ["A", "D"]), ("C", ["B", "C"]), ("D", ["E"])] =
    (["D", "B", "C", "A"] : List Key) := by decide

end ZodSchemas
