import Mathlib.Order.Monotone.Basic
import ZodSchemas.Proofs.Conversion.Alike
import ZodSchemas.Proofs.Conversion.Merging

/-!
# The bound on the depth is no bound

A conversion that ends within some depth ends within the depth of the schema,
with the same outcome and the same references on the way. In a tree this is so
because what is inside is less deep. In a knot the places whose conversions end
get more with every step until they are all that there are, which takes no more
steps than the knot has containers. So the conversion of a schema unfolds to
its form whenever that ends, even where the schema holds something that is
inside itself under a keyword that is not read.
-/

namespace ZodSchemas

namespace Value

/-- The parts of a value are no deeper than the value. -/
theorem depth_le_of_mem_parts {v w : Value} (h : w ∈ v.parts) : w.depth ≤ v.depth := by
  cases v with
  | atom key => simp [parts, shape] at h
  | list items =>
    have hm : w ∈ items := by simpa [parts, shape] using h
    exact Nat.le_succ_of_le (depth_le_depthOfItems hm)
  | pair a b =>
    have hm : w = a ∨ w = b := by simpa [parts, shape] using h
    rcases hm with rfl | rfl
    · exact Nat.le_succ_of_le (Nat.le_max_left _ _)
    · exact Nat.le_succ_of_le (Nat.le_max_right _ _)
  | map entries =>
    obtain ⟨e, he, rfl⟩ : ∃ e ∈ entries, e.2 = w := List.mem_map.mp h
    exact Nat.le_succ_of_le (depth_le_depthOfEntries he)
  | set items => simp [parts, shape] at h
  | knot ties n =>
    rcases mem_parts_knot h with ⟨key, rfl⟩ | ⟨q, rfl⟩
    · exact Nat.zero_le _
    · exact Nat.le_refl _

/-- The parts of a value are at most as deep as something, where the value is. -/
theorem isPartwise_depth_le (n : Nat) : IsPartwise fun v => v.depth ≤ n where
  part hv hw := Nat.le_trans (depth_le_of_mem_parts hw) hv
  atom _ := Nat.zero_le n

/-- The parts of the places of a knot are places again, or have no parts. -/
theorem isPartwise_knot (ties : Knot) :
    IsPartwise fun v => (∃ key, v = .atom key) ∨ ∃ p, v = .knot ties p where
  part := by
    rintro v w (⟨key, rfl⟩ | ⟨p, rfl⟩) hw
    · simp [parts, shape] at hw
    · exact mem_parts_knot hw
  atom key := .inl ⟨key, rfl⟩

end Value

namespace Source

variable {source : Source} {f g : Value → Conversion Node}

/-- A value is converted alike where its parts are. -/
theorem ofSchema_reaches {P : Value → Prop} (hp : Value.IsPartwise P) {v : Value}
    (hv : ∀ w ∈ v.parts, P w) (h : ∀ w, P w → (f w).Reaches (g w)) :
    (source.ofSchema f v).Reaches (source.ofSchema g v) :=
  (simulates_sameWith h).ofSchema (isLikeness_sameWith hp) (fun _ => rfl) (agreeIn_sameWith hp hv)

/-- A value that is no mapping is refused, whatever the bound. -/
theorem convertWithin_of_no_entries {v : Value} (h : v.entries? = none) (n : Nat) :
    source.convertWithin (n + 1) v = Traced.fail (schemaFault v) := by
  rw [convertWithin, ofSchema, h]

/-- What ends within a bound ends within a longer one in the same way. -/
theorem convertWithin_mono {n m : Nat} (h : n ≤ m) (v : Value) :
    (source.convertWithin n v).Reaches (source.convertWithin m v) := by
  induction n generalizing m v with
  | zero => exact Traced.reaches_of_endless rfl _
  | succ n ih =>
    obtain ⟨m, rfl⟩ : ∃ k, m = k + 1 := ⟨m - 1, by omega⟩
    rw [convertWithin, convertWithin]
    exact ofSchema_reaches (P := fun _ => True) ⟨fun _ _ => trivial, fun _ => trivial⟩
      (fun _ _ => trivial) fun w _ => ih (by omega) w

/-- Once a conversion ends within some bound, all bounds that it ends within lead to the same. -/
theorem convertWithin_settled {k m : Nat} {v : Value}
    (h : (source.convertWithin k v).outcome ≠ .error .endless) (hm : k ≤ m) (n : Nat) :
    (source.convertWithin n v).Reaches (source.convertWithin m v) := by
  rcases Nat.le_total n m with hle | hle
  · exact convertWithin_mono hle v
  · intro _
    have hends : (source.convertWithin m v).outcome ≠ .error .endless := by
      rw [convertWithin_mono hm v h]
      exact h
    exact (convertWithin_mono hle v hends).symm

section Knots

variable {ties : Knot}

open scoped Classical in
/-- The places of a knot whose conversions end within some bound. -/
noncomputable def ended (source : Source) (ties : Knot) (n : Nat) : Finset Nat :=
  (Finset.range ties.size).filter fun p =>
    (source.convertWithin (n + 1) (.knot ties p)).outcome ≠ .error .endless

/-- Only places of the knot are counted. -/
theorem lt_of_mem_ended {n p : Nat} (h : p ∈ source.ended ties n) : p < ties.size := by
  simp only [ended, Finset.mem_filter, Finset.mem_range] at h
  exact h.1

/-- A conversion ends at a place that is counted, and wherever there is no place. -/
theorem mem_ended_or_le {n p : Nat} :
    (source.convertWithin (n + 1) (.knot ties p)).outcome ≠ .error .endless ↔
      p ∈ source.ended ties n ∨ ties.size ≤ p := by
  by_cases hp : p < ties.size
  · simp [ended, hp, Nat.not_le.mpr hp]
  · have hs : (Value.knot ties p).entries? = none := by
      simp [Value.entries?, Value.shape, Nat.not_lt.mp hp]
    have he := schemaFault_ne_endless (.knot ties p)
    simp [convertWithin_of_no_entries hs, Nat.not_lt.mp hp, he]

/-- A longer bound admits the places that a shorter one does. -/
theorem ended_mono {n m : Nat} (h : n ≤ m) : source.ended ties n ⊆ source.ended ties m := by
  intro p hp
  have hin := lt_of_mem_ended hp
  have hends := mem_ended_or_le.mpr (.inl hp)
  refine (mem_ended_or_le.mp ?_).resolve_right (Nat.not_le.mpr hin)
  rw [convertWithin_mono (Nat.succ_le_succ h) _ hends]
  exact hends

/-- Once a longer bound admits no further place, the next one does not either. -/
theorem ended_stable {n : Nat} (h : source.ended ties n = source.ended ties (n + 1)) :
    source.ended ties (n + 1) = source.ended ties (n + 2) := by
  refine (ended_mono (Nat.le_succ _)).antisymm fun p hp => ?_
  have hin := lt_of_mem_ended hp
  have hends := mem_ended_or_le.mpr (.inl hp)
  -- What is inside ends a step earlier, since it ends at all.
  have hinside : ∀ w, ((∃ key, w = .atom key) ∨ ∃ q, w = .knot ties q) →
      (source.convertWithin (n + 2) w).Reaches (source.convertWithin (n + 1) w) := by
    rintro w (⟨key, rfl⟩ | ⟨q, rfl⟩)
    · rw [convertWithin_of_no_entries rfl, convertWithin_of_no_entries rfl]
    · intro hq
      have hcounted := mem_ended_or_le.mp hq
      rw [← h] at hcounted
      exact (convertWithin_mono (Nat.le_succ _) _ (mem_ended_or_le.mpr hcounted)).symm
  have hreaches : (source.convertWithin (n + 3) (.knot ties p)).Reaches
      (source.convertWithin (n + 2) (.knot ties p)) := by
    rw [convertWithin, convertWithin]
    exact ofSchema_reaches (Value.isPartwise_knot ties) (fun _ hw => Value.mem_parts_knot hw)
      hinside
  refine (mem_ended_or_le.mp ?_).resolve_right (Nat.not_le.mpr hin)
  rw [hreaches hends]
  exact hends

/-- A conversion at a place of a knot that ends does so within as many steps as the knot has
containers. -/
theorem convertWithin_size {n p : Nat}
    (h : (source.convertWithin n (.knot ties p)).outcome ≠ .error .endless) :
    (source.convertWithin (ties.size + 1) (.knot ties p)).outcome ≠ .error .endless := by
  refine mem_ended_or_le.mpr ?_
  have hlonger : (source.convertWithin (max n ties.size + 1) (.knot ties p)).outcome ≠
      .error .endless := by
    rw [convertWithin_mono (by omega) _ h]
    exact h
  -- The number of places stands still from then on, so the places do.
  have hcard : (source.ended ties (max n ties.size)).card = (source.ended ties ties.size).card := by
    refine Nat.stabilises_of_monotone (f := fun n => (source.ended ties n).card)
      (fun _ _ hnm => Finset.card_le_card (ended_mono hnm)) (fun m => ?_) (fun m hm => ?_)
      (Nat.le_max_right _ _)
    · have hrange : source.ended ties m ⊆ Finset.range ties.size := fun p hp =>
        Finset.mem_range.mpr (lt_of_mem_ended hp)
      simpa using Finset.card_le_card hrange
    · have heq := Finset.eq_of_subset_of_card_le (ended_mono (Nat.le_succ m)) hm.ge
      exact congrArg Finset.card (ended_stable heq)
  have heq := Finset.eq_of_subset_of_card_le (ended_mono (Nat.le_max_right n ties.size)) hcard.le
  rw [heq]
  exact mem_ended_or_le.mp hlonger

end Knots

/-- A conversion that ends within some depth ends within the depth of the schema. -/
theorem convertWithin_depth {n : Nat} {v : Value}
    (h : (source.convertWithin n v).outcome ≠ .error .endless) :
    (source.convert v).outcome ≠ .error .endless := by
  induction hd : v.depth using Nat.strongRecOn generalizing n v with
  | ind d ih =>
    by_cases hs : v.entries? = none
    · rw [convert, convertWithin_of_no_entries hs]
      simpa using schemaFault_ne_endless v
    · cases v with
      | map entries =>
        obtain ⟨n, rfl⟩ : ∃ k, n = k + 1 :=
          Nat.exists_eq_succ_of_ne_zero fun hn => h (by rw [hn]; rfl)
        have hreaches : (source.ofSchema (source.convertWithin n) (.map entries)).Reaches
            (source.ofSchema (source.convertWithin (Value.map entries).depth) (.map entries)) := by
          refine ofSchema_reaches (Value.isPartwise_depth_le (Value.depthOfEntries entries))
            (fun w hw => ?_) fun w hw => ?_
          · obtain ⟨e, he, rfl⟩ : ∃ e ∈ entries, e.2 = w := List.mem_map.mp hw
            exact Value.depth_le_depthOfEntries he
          · intro hends
            have hconvert := ih w.depth (hd ▸ Nat.lt_succ_of_le hw) hends rfl
            exact convertWithin_settled hconvert (Nat.succ_le_succ hw) n hends
        change (source.ofSchema (source.convertWithin (Value.map entries).depth)
          (.map entries)).outcome ≠ _
        rw [hreaches h]
        exact h
      | knot ties p => exact convertWithin_size h
      | _ => exact absurd rfl hs

/-- What ends within some depth is the conversion of the schema. -/
theorem convertWithin_reaches (n : Nat) (v : Value) :
    (source.convertWithin n v).Reaches (source.convert v) :=
  fun h => convertWithin_settled (convertWithin_depth h) (Nat.le_refl _) n h

/-- The conversion of a schema is by its form and the conversions of the schemas inside, whenever
that ends. -/
theorem ofSchema_convert_reaches (v : Value) :
    (source.ofSchema source.convert v).Reaches (source.convert v) := by
  have hstep : (source.ofSchema source.convert v).Reaches
      (source.convertWithin (v.depth + 2) v) := by
    rw [convertWithin]
    exact ofSchema_reaches (Value.isPartwise_depth_le v.depth)
      (fun _ hw => Value.depth_le_of_mem_parts hw) fun w hw => convertWithin_mono (by omega) w
  exact hstep.trans (convertWithin_reaches _ v)

section Alike

variable {other : Source} {r : Value → Value → Prop}

/-- A schema without a keyword that is read is converted to anything. -/
theorem ofSchema_blank {v : Value} {schema : Entries Value} (hv : v.entries? = some schema)
    (h : ∀ keyword ∈ readKeywords, Entries.find? keyword schema = none) :
    source.ofSchema f v = pure .unknown := by
  have hform : Form.of schema = .anything := by
    have hnone : ∀ keyword ∈ readKeywords, Entries.find? (.text keyword) schema = none := h
    simp only [readKeywords, plainKeywords, nestingKeywords, memberKeywords, List.cons_append,
      List.nil_append, List.forall_mem_cons] at hnone
    simp [Form.of, Form.ofType, hnone, Value.equals_text]
  have hnullable : isNullable schema = false := by
    rw [isNullable, h "nullable" (by simp [readKeywords, plainKeywords])]
    rfl
  rw [ofSchema, hv]
  simp [hform, hnullable, ofForm]

/-- Of two schemas that look alike and of which one is empty, both are converted to anything. -/
theorem ofSchema_of_falsy {v w : Value} (h : v.AgreeIn (LookAlike r) w)
    (hv : v.isTruthy = false ∨ w.isTruthy = false) (hne : v.isTruthy ≠ w.isTruthy) :
    source.ofSchema f v = pure .unknown ∧ source.ofSchema f w = pure .unknown := by
  cases h with
  | same hn => exact absurd rfl hne
  | @entries _ s t hs ht hst =>
    have hempty : s = [] ∨ t = [] := by
      rwa [Value.isTruthy_of_entries? hs, Value.isTruthy_of_entries? ht, Bool.not_eq_false',
        Bool.not_eq_false', List.isEmpty_iff, List.isEmpty_iff] at hv
    have hnone : ∀ keyword ∈ readKeywords,
        Entries.find? keyword s = none ∧ Entries.find? keyword t = none := by
      intro keyword hk
      have hiff := hst.find?_eq_none_iff hk
      rcases hempty with rfl | rfl
      · exact ⟨rfl, hiff.mp rfl⟩
      · exact ⟨hiff.mpr rfl, rfl⟩
    exact ⟨ofSchema_blank hs fun k hk => (hnone k hk).1,
      ofSchema_blank ht fun k hk => (hnone k hk).2⟩

/-- Schemas that look alike are converted alike, by sources that refer to the same. -/
theorem convert_alike (ht : ∀ target, source.reference target = other.reference target)
    {v w : Value} (h : v.AreAlike w) : (source.convert v).Reaches (other.convert w) := by
  obtain ⟨r, hr, hvw⟩ := h
  -- The second bound is longer, so that an empty schema has a node at least there.
  have within : ∀ n v w, r v w →
      (source.convertWithin n v).Reaches (other.convertWithin (n + 1) w) := by
    intro n
    induction n with
    | zero => exact fun v w _ => Traced.reaches_of_endless rfl _
    | succ n ih =>
      intro v w hvw
      rw [convertWithin, convertWithin]
      refine Simulates.ofSchema (r := r) ⟨fun hvw => ih _ _ hvw, ?_, ?_⟩ hr ht (hr v w hvw)
      · intro v w hvw hv hw
        rw [convertWithin, (ofSchema_of_falsy (hr v w hvw) (.inl hv) (by simp [hv, hw])).2]
      · intro v w hvw hv hw
        cases n with
        | zero => exact Traced.reaches_of_endless rfl _
        | succ n =>
          rw [convertWithin, (ofSchema_of_falsy (hr v w hvw) (.inr hw) (by simp [hv, hw])).1]
  exact (within _ v w hvw).trans (convertWithin_reaches _ w)

end Alike

end Source

end ZodSchemas
