import Mathlib.Data.List.Perm.Subperm
import ZodSchemas.Proofs.Value.Keys
import ZodSchemas.Value.Finite

/-!
# JSON values

What JSON expresses are atoms, lists, and mappings from different texts. Such
values are trees, so no walk into them goes on forever, and on them equality is
what it should be: two values that equal a third one equal each other. For
mappings that takes counting, since equality asks whether one side has all keys
of the other and whether there are as many.
-/

namespace ZodSchemas

namespace Entries

variable {α β : Type}

/-- Different keys that are all among as many others are all of them. -/
theorem has_of_length_eq {xs : Entries α} {ys : Entries β} (hd : KeysDiffer (keys ys))
    (hl : xs.length = ys.length) (h : ∀ e ∈ ys, has e.1 xs = true) :
    ∀ e ∈ xs, has e.1 ys = true := by
  have hn : ((keys ys).map Key.meaning).Nodup := by
    refine List.pairwise_map.mpr (hd.imp fun hs he => ?_)
    simp [Key.same, he] at hs
  have hsub : (keys ys).map Key.meaning ⊆ (keys xs).map Key.meaning := by
    intro m hm
    obtain ⟨k, hk, rfl⟩ := List.mem_map.mp hm
    obtain ⟨e, he, rfl⟩ := List.mem_map.mp hk
    obtain ⟨other, ho, hs⟩ := Key.isAmong_iff.mp (has_eq_isAmong e.1 xs ▸ h e he)
    exact List.mem_map.mpr ⟨other, ho, by simpa [Key.same] using hs⟩
  have hp := (hn.subperm hsub).perm_of_length_le (by simp [keys, hl])
  intro e he
  have hm : e.1.meaning ∈ (keys xs).map Key.meaning :=
    List.mem_map_of_mem (List.mem_map_of_mem he)
  obtain ⟨k, hk, hs⟩ := List.mem_map.mp (hp.mem_iff.mpr hm)
  rw [has_eq_isAmong]
  exact Key.isAmong_iff.mpr ⟨k, hk, by simp [Key.same, hs]⟩

end Entries

namespace Value

/-- A value that JSON expresses. -/
inductive IsJson : Value → Prop where
  /-- No value. -/
  | null : IsJson .null
  /-- A truth value. -/
  | bool (b : Bool) : IsJson (.bool b)
  /-- An integer. -/
  | int (n : Int) : IsJson (.int n)
  /-- A double-precision number. -/
  | float (x : Binary64) : IsJson (.float x)
  /-- A text. -/
  | text (t : Text) : IsJson (.text t)
  /-- A list of such values. -/
  | list {items : List Value} (values : ∀ v ∈ items, IsJson v) : IsJson (.list items)
  /-- A mapping from different texts to such values. -/
  | map {entries : Entries Value} (texts : ∀ e ∈ entries, ∃ t, e.1 = .text t)
      (differ : KeysDiffer (Entries.keys entries)) (values : ∀ e ∈ entries, IsJson e.2) :
      IsJson (.map entries)

namespace IsJson

variable {v : Value}

/-- A JSON value is not inside itself. -/
theorem isFinite (h : v.IsJson) : v.isFinite = true := by
  induction h with
  | list _ ih =>
    exact fits_succ.mpr fun w hw => fits_mono (ih w hw) (depth_le_depthOfItems hw)
  | map _ _ _ ih =>
    refine fits_succ.mpr fun w hw => ?_
    obtain ⟨e, he, rfl⟩ := List.mem_map.mp hw
    exact fits_mono (ih e he) (depth_le_depthOfEntries he)
  | _ => rfl

/-- What stands under a key of a JSON value is one. -/
theorem of_find? {entries : Entries Value} {key : Key} {w : Value} (h : v.IsJson)
    (he : v.entries? = some entries) (hw : Entries.find? key entries = some w) : w.IsJson := by
  obtain ⟨k, -, hm⟩ := Entries.mem_of_find? hw
  cases h with
  | map _ _ values =>
    obtain rfl := Option.some.inj he
    exact values _ hm
  | _ => simp [entries?, shape] at he

/-- A key that a JSON value has is a text. -/
theorem exists_text {entries : Entries Value} {key : Key} {w : Value} (h : v.IsJson)
    (he : v.entries? = some entries) (hw : Entries.find? key entries = some w) :
    ∃ t, key = .text t := by
  obtain ⟨k, hk, hm⟩ := Entries.mem_of_find? hw
  cases h with
  | map texts _ _ =>
    obtain rfl := Option.some.inj he
    obtain ⟨t, rfl : k = .text t⟩ := texts _ hm
    exact ⟨t, Key.eq_text_of_same (Key.same_comm .. ▸ hk)⟩
  | _ => simp [entries?, shape] at he

end IsJson

/-- Items are equal one by one. -/
theorem sameItems_iff {xs ys : List Value} :
    sameItems xs ys = true ↔ List.Forall₂ (fun x y => x.same y = true) xs ys := by
  induction xs generalizing ys with
  | nil => cases ys <;> simp [sameItems]
  | cons x xs ih =>
    cases ys with
    | nil => simp [sameItems]
    | cons y ys => simp [sameItems, ih]

/-- Entries are equal when there is an equal value under each key. -/
theorem sameEntries_iff {xs ys : Entries Value} :
    sameEntries xs ys = true ↔
      ∀ e ∈ ys, ∃ x, Entries.find? e.1 xs = some x ∧ x.same e.2 = true := by
  induction ys with
  | nil => simp [sameEntries]
  | cons e ys ih =>
    obtain ⟨k, y⟩ := e
    rw [sameEntries, Bool.and_eq_true, ih, List.forall_mem_cons]
    refine and_congr_left fun _ => ?_
    cases Entries.find? k xs <;> simp

/-- A value that equals an atom is one. -/
theorem same_atom {v : Value} {key : Key} :
    v.same (.atom key) = true ↔ ∃ other, v.shape = .atom other ∧ other.same key = true := by
  rw [same]
  cases v.shape <;> simp

/-- A value that equals a list is one. -/
theorem same_list {v : Value} {ys : List Value} :
    v.same (.list ys) = true ↔
      ∃ xs, v.shape = .list xs ∧ List.Forall₂ (fun x y => x.same y = true) xs ys := by
  rw [same]
  cases v.shape <;> simp [sameItems_iff]

/-- A value that equals a mapping is one. -/
theorem same_map {v : Value} {ys : Entries Value} :
    v.same (.map ys) = true ↔ ∃ xs, v.shape = .map xs ∧ xs.length = ys.length ∧
      ∀ e ∈ ys, ∃ x, Entries.find? e.1 xs = some x ∧ x.same e.2 = true := by
  rw [same]
  cases v.shape <;> simp [sameEntries_iff]

/-- Lists that are related to a third one are related to each other when their items are. -/
theorem forall₂_of_common {α : Type} {R : α → α → Prop} {xs ys zs : List α}
    (h : ∀ x ∈ xs, ∀ y, ∀ z ∈ zs, R x z → R y z → R y x) (hx : List.Forall₂ R xs zs)
    (hy : List.Forall₂ R ys zs) : List.Forall₂ R ys xs := by
  induction hx generalizing ys with
  | nil =>
    cases hy
    exact .nil
  | cons hxz _ ih =>
    cases hy with
    | cons hyz hy =>
      refine .cons (h _ (by simp) _ _ (by simp) hxz hyz) (ih (fun x hm y z hz => ?_) hy)
      exact h x (List.mem_cons_of_mem _ hm) y z (List.mem_cons_of_mem _ hz)

/-- Values that equal a JSON value equal each other. -/
theorem same_of_same {a b w : Value} (hw : w.IsJson) (ha : a.IsJson) (haw : a.same w = true)
    (hbw : b.same w = true) : b.same a = true := by
  -- Atoms are equal when their keys are.
  have atoms : ∀ {a b : Value} {key : Key}, a.IsJson → a.same (.atom key) = true →
      b.same (.atom key) = true → b.same a = true := by
    intro a b key ha haw hbw
    obtain ⟨x, hx, hxk⟩ := same_atom.mp haw
    obtain ⟨y, hy, hyk⟩ := same_atom.mp hbw
    obtain rfl : a = .atom x := by cases ha <;> simp_all [shape]
    exact same_atom.mpr ⟨y, hy, Key.same_trans hyk (Key.same_comm x key ▸ hxk)⟩
  induction hw generalizing a b with
  | @list zs _ ih =>
    obtain ⟨xs, hx, hxz⟩ := same_list.mp haw
    obtain ⟨ys, hy, hyz⟩ := same_list.mp hbw
    cases ha with
    | @list items values =>
      obtain rfl : items = xs := by simpa [shape] using hx
      refine same_list.mpr ⟨ys, hy, forall₂_of_common ?_ hxz hyz⟩
      exact fun x hm y z hz hxz hyz => ih z hz (values x hm) hxz hyz
    | _ => simp [shape] at hx
  | @map zs _ differ _ ih =>
    obtain ⟨xs, hx, hxl, hxz⟩ := same_map.mp haw
    obtain ⟨ys, hy, hyl, hyz⟩ := same_map.mp hbw
    cases ha with
    | @map entries _ keys values =>
      obtain rfl : entries = xs := by simpa [shape] using hx
      refine same_map.mpr ⟨ys, hy, hyl.trans hxl.symm, fun e he => ?_⟩
      have hz := Entries.has_of_length_eq differ hxl
        (fun z hz => Entries.has_of_find? (hxz z hz).choose_spec.1) e he
      obtain ⟨z, hz⟩ := Entries.exists_find? hz
      obtain ⟨k, hk, hm⟩ := Entries.mem_of_find? hz
      obtain ⟨x, hfx, hsx⟩ := hxz _ hm
      obtain ⟨y, hfy, hsy⟩ := hyz _ hm
      rw [Entries.find?_congr hk, Entries.find?_of_mem keys he, Option.some.injEq] at hfx
      subst hfx
      exact ⟨y, Entries.find?_congr hk ys ▸ hfy, ih _ hm (values e he) hsx hsy⟩
    | _ => simp [shape] at hx
  | _ => exact atoms ha haw hbw

/-- What is no number is equal, as a part of others, only to what is no number. -/
theorem eq_nan_of_same {mark : Nat} {w : Value} (hw : w.IsJson)
    (h : (Value.float (.nan mark)).same w = true) : ∃ other, w = .float (.nan other) := by
  cases hw with
  | float x =>
    obtain ⟨key, hk, hs⟩ := same_atom.mp h
    obtain rfl : Key.float (.nan mark) = key := by simpa [shape] using hk
    cases x with
    | nan other => exact ⟨other, rfl⟩
    | _ => simp [Key.same, Key.meaning, Binary64.quantity] at hs
  | list _ =>
    obtain ⟨xs, hx, -⟩ := same_list.mp h
    simp [shape] at hx
  | map _ _ _ =>
    obtain ⟨xs, hx, -⟩ := same_map.mp h
    simp [shape] at hx
  | _ =>
    obtain ⟨key, hk, hs⟩ := same_atom.mp h
    obtain rfl : Key.float (.nan mark) = key := by simpa [shape] using hk
    simp [Key.same, Key.meaning, Binary64.quantity] at hs

/-- Values are equal as parts of others are, unless both are no numbers. -/
theorem equals_iff {a b : Value} : a.equals b = true ↔
    a.same b = true ∧ ∀ m n, ¬ (a = .float (.nan m) ∧ b = .float (.nan n)) := by
  unfold equals
  split
  · simp
  · next hn =>
    refine ⟨fun h => ⟨h, fun m n hab => hn m n hab.1 hab.2⟩, And.left⟩

/-- Literals that a JSON value matches match each other. -/
theorem isMatch_of_isMatch {a b w : Value} (hw : w.IsJson) (ha : a.IsJson)
    (haw : a.isMatch w = true) (hbw : b.isMatch w = true) : b.isMatch a = true := by
  simp only [isMatch, Bool.and_eq_true, beq_iff_eq, equals_iff] at haw hbw ⊢
  obtain ⟨hka, hsa, hna⟩ := haw
  obtain ⟨hkb, hsb, -⟩ := hbw
  refine ⟨hkb.trans hka.symm, same_of_same hw ha hsa hsb, ?_⟩
  rintro m n ⟨-, rfl⟩
  obtain ⟨other, rfl⟩ := eq_nan_of_same hw hsa
  exact hna n other ⟨rfl, rfl⟩

end Value

end ZodSchemas
