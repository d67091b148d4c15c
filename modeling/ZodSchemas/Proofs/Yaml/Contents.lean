import ZodSchemas.Proofs.Yaml.Graphs
import ZodSchemas.Yaml.Content

/-!
# Faults of contents

A text with a graph may still stand for no value: a text is tagged as a sort of
scalars that it is none of, or a mapping stands where a scalar is promised.
Merges change no texts, and a tag only from the one of a default key to that of
a text, so such a lapse is there in the graph before anything is merged.
-/

namespace ZodSchemas.Yaml

/-- A tag after merges: that of a default key may have become that of a text. -/
def Tag.ComesFrom (before after : Tag) : Prop := after = before ∨ before = .default ∧ after = .str

/-- A node after merges: a mapping may have other entries, and a tag may have changed. -/
inductive Vertex.ComesFrom : Vertex → Vertex → Prop where
  /-- A text stays. -/
  | scalar {tag tag' : Tag} (h : tag.ComesFrom tag') (t : Text) :
    ComesFrom (.scalar tag t) (.scalar tag' t)
  /-- The items of a sequence stay. -/
  | sequence {tag tag' : Tag} (h : tag.ComesFrom tag') (items : List Nat) :
    ComesFrom (.sequence tag items) (.sequence tag' items)
  /-- A mapping stays one. -/
  | mapping {tag tag' : Tag} (h : tag.ComesFrom tag') (entries entries' : List (Nat × Nat)) :
    ComesFrom (.mapping tag entries) (.mapping tag' entries')

/-- A mapping with some tag. -/
def Vertex.IsMapping (v : Vertex) : Prop := ∃ tag entries, v = .mapping tag entries

theorem Tag.ComesFrom.refl (tag : Tag) : tag.ComesFrom tag := .inl rfl

theorem Tag.ComesFrom.trans {a b c : Tag} (h : a.ComesFrom b) (h' : b.ComesFrom c) :
    a.ComesFrom c := by
  rcases h with rfl | ⟨rfl, rfl⟩
  · exact h'
  · rcases h' with rfl | ⟨hb, -⟩
    · exact .inr ⟨rfl, rfl⟩
    · cases hb

namespace Vertex.ComesFrom

theorem refl (v : Vertex) : v.ComesFrom v := by
  cases v with
  | scalar tag t => exact .scalar (.refl tag) t
  | sequence tag items => exact .sequence (.refl tag) items
  | mapping tag entries => exact .mapping (.refl tag) entries entries

theorem trans {a b c : Vertex} (h : a.ComesFrom b) (h' : b.ComesFrom c) : a.ComesFrom c := by
  cases h with
  | scalar ht t =>
    cases h' with
    | scalar ht' _ => exact .scalar (ht.trans ht') t
  | sequence ht items =>
    cases h' with
    | sequence ht' _ => exact .sequence (ht.trans ht') items
  | mapping ht entries _ =>
    cases h' with
    | mapping ht' _ _ => exact .mapping (ht.trans ht') entries _

theorem tag {a b : Vertex} (h : a.ComesFrom b) : a.tag.ComesFrom b.tag := by
  cases h <;> assumption

/-- A default key becomes a text. -/
theorem withTag {v : Vertex} (h : v.tag = .default) : v.ComesFrom (v.withTag .str) := by
  cases v with
  | scalar tag t => exact .scalar (.inr ⟨h, rfl⟩) t
  | sequence tag items => exact .sequence (.inr ⟨h, rfl⟩) items
  | mapping tag entries => exact .mapping (.inr ⟨h, rfl⟩) entries entries

theorem isMapping_iff {a b : Vertex} (h : a.ComesFrom b) : a.IsMapping ↔ b.IsMapping := by
  cases h <;> simp [IsMapping]

end Vertex.ComesFrom

namespace Graph

/-- Merges of one graph lead to another. -/
def ComesFrom (g g' : Graph) : Prop := ∀ n, (g.vertex n).ComesFrom (g'.vertex n)

/-- How a graph may stand for no value though its text keeps the rules of the format. -/
inductive Lapses (g : Graph) : ReadError → Prop where
  /-- A node is tagged as a sort of scalars that its text is none of; a mapping has the text of a
  scalar inside. -/
  | scalar {n m : Nat} {tag : Tag} {t : Text} {e : ReadError} (hm : g.vertex m = .scalar tag t)
    (hn : n = m ∨ ∃ tag entries, g.vertex n = .mapping tag entries)
    (h : readScalar (n + 1) (g.tag n) t = .error e) : Lapses g e
  /-- A mapping is tagged as a date. -/
  | dateOfMapping {n : Nat} {entries : List (Nat × Nat)}
    (h : g.vertex n = .mapping .timestamp entries) : Lapses g .dateOfMapping
  /-- A mapping is tagged as a scalar or a default key. -/
  | endless {n : Nat} {tag : Tag} {entries : List (Nat × Nat)}
    (h : g.vertex n = .mapping tag entries) (ht : tag.isScalar = true ∨ tag = .default) :
      Lapses g .endless

variable {g g' : Graph} {n : Nat}

namespace ComesFrom

theorem refl (g : Graph) : g.ComesFrom g := fun n => .refl (g.vertex n)

theorem trans {g'' : Graph} (h : g.ComesFrom g') (h' : g'.ComesFrom g'') : g.ComesFrom g'' :=
  fun n => (h n).trans (h' n)

/-- A node is exchanged for one that comes from it. -/
theorem setIfInBounds {v : Vertex} (h : (g.vertex n).ComesFrom v) :
    g.ComesFrom (g.setIfInBounds n v) := by
  intro m
  simp only [Graph.vertex, Array.getD_eq_getD_getElem?, Array.getElem?_setIfInBounds]
  split
  · next heq =>
    subst heq
    split
    · rwa [Graph.vertex, Array.getD_eq_getD_getElem?] at h
    · next hout => simpa [hout] using Vertex.ComesFrom.refl default
  · exact .refl _

theorem withEntries (h : (g.vertex n).IsMapping) (entries : List (Nat × Nat)) :
    g.ComesFrom (g.withEntries n entries) := by
  obtain ⟨tag, old, h⟩ := h
  refine setIfInBounds ?_
  rw [Graph.tag, h]
  exact .mapping (.refl tag) _ _

theorem withoutDefaults (g : Graph) (entries : List (Nat × Nat)) :
    g.ComesFrom (g.withoutDefaults entries) := by
  refine List.foldlRecOn entries _ (.refl g) fun g' h e _ => ?_
  split
  · next hdefault => exact h.trans (setIfInBounds (.withTag hdefault))
  · exact h

end ComesFrom

end Graph

/-! ### Merging -/

namespace Merging

variable {g : Graph} {α : Type} {n : Nat}

/-- Merging goes wrong only where a rule is broken. -/
abbrev Merges (g : Graph) (x : Merging α) : Prop := Stays (· = .malformed) g.ComesFrom x

theorem merges_malformed : Merges g (throw .malformed : Merging α) := .throw rfl

theorem merges_takeFirst? (h : (g.vertex n).IsMapping) : Merges g (takeFirst? n) := by
  refine .bind_get fun g' hg' => ?_
  split
  · exact .pure _
  · have hm := (hg' n).isMapping_iff.mp h
    exact (Stays.set (hg'.trans (.withEntries hm _))).bind fun _ => .pure _

theorem merges_putFront (h : (g.vertex n).IsMapping) (merged : List (Nat × Nat)) :
    Merges g (putFront n merged) := by
  intro g' hg'
  have hdefaults := hg'.trans (.withoutDefaults g' (g'.entries n))
  change g.ComesFrom (if merged.isEmpty then _ else _)
  split
  · exact hdefaults
  · exact hdefaults.trans (.withEntries ((hdefaults n).isMapping_iff.mp h) _)

theorem merges_entriesAfter {change : Nat → Merging Unit}
    (hc : ∀ n, (g.vertex n).IsMapping → Merges g (change n)) (n : Nat) :
    Merges g (entriesAfter change n) := by
  refine .bind_get fun g' hg' => ?_
  split
  · next hv =>
    have hm : (g.vertex n).IsMapping := (hg' n).isMapping_iff.mpr ⟨_, _, hv⟩
    exact (hc n hm).bind fun _ => .bind_get fun _ _ => .pure _
  · exact merges_malformed

theorem merges_entriesFrom {change : Nat → Merging Unit}
    (hc : ∀ n, (g.vertex n).IsMapping → Merges g (change n)) (n : Nat) :
    Merges g (entriesFrom change n) := by
  refine .bind_get fun g' hg' => ?_
  split
  · exact (Stays.mapM (merges_entriesAfter hc) _).bind fun _ => .pure _
  · exact merges_entriesAfter hc n

theorem merges_within (fuel : Nat) (merged : List (Nat × Nat)) (h : (g.vertex n).IsMapping) :
    Merges g (within fuel n merged) := by
  induction fuel generalizing n merged with
  | zero => exact merges_putFront h merged
  | succ fuel ih =>
    rw [within]
    refine (merges_takeFirst? h).bind fun value => ?_
    split
    · exact merges_putFront h merged
    · exact (merges_entriesFrom (fun m hm => ih [] hm) _).bind fun more => ih _ h

theorem merges_mapping (h : (g.vertex n).IsMapping) : Merges g (mapping n) :=
  .bind_get fun _ _ => merges_within _ _ h

end Merging

/-! ### Filling -/

namespace Graph

variable {g g' : Graph} {n fuel : Nat}

/-- The text of a node is that of a scalar, of its own or of one inside. -/
theorem exists_scalar_of_textWithin {t : Text} (h : g.textWithin fuel n = .ok t) :
    ∃ m tag, g.vertex m = .scalar tag t ∧ (n = m ∨ (g.vertex n).IsMapping) := by
  induction fuel generalizing n with
  | zero => cases h
  | succ fuel ih =>
    rw [textWithin] at h
    split at h
    · next tag text hv =>
      cases h
      exact ⟨n, tag, hv, .inl rfl⟩
    · cases h
    · next tag entries hv =>
      split at h
      · next value _ =>
        obtain ⟨m, tag', hm, -⟩ := ih h
        exact ⟨m, tag', hm, .inr ⟨tag, entries, hv⟩⟩
      · cases h

/-- Only a mapping may have no text without breaking a rule. -/
theorem of_textWithin_eq_error {e : ReadError} (h : g.textWithin fuel n = .error e) :
    e = .malformed ∨ e = .endless ∧ (fuel = 0 ∨ (g.vertex n).IsMapping) := by
  induction fuel generalizing n with
  | zero =>
    cases h
    exact .inr ⟨rfl, .inl rfl⟩
  | succ fuel ih =>
    rw [textWithin] at h
    split at h
    · cases h
    · cases h
      exact .inl rfl
    · next tag entries hv =>
      split at h
      · exact (ih h).imp_right fun hend => ⟨hend.1, .inr ⟨tag, entries, hv⟩⟩
      · cases h
        exact .inl rfl

/-- A tag of scalars other than that of a text was there before merges. -/
theorem ComesFrom.tag_eq (hg : g.ComesFrom g') (hs : g'.tag n ≠ .str) : g.tag n = g'.tag n := by
  rcases (hg n).tag with h | ⟨-, h⟩
  · exact h.symm
  · exact absurd h hs

/-- A scalar was a scalar with the same text before merges. -/
theorem ComesFrom.exists_scalar {tag : Tag} {t : Text} (hg : g.ComesFrom g')
    (h : g'.vertex n = .scalar tag t) : ∃ tag', g.vertex n = .scalar tag' t := by
  have hfrom := hg n
  rw [h] at hfrom
  generalize g.vertex n = v at hfrom ⊢
  cases hfrom
  exact ⟨_, rfl⟩

/-- A mapping that is tagged as a scalar was so before merges, or was a default key. -/
theorem ComesFrom.lapses_of_isMapping (hg : g.ComesFrom g') (hm : (g'.vertex n).IsMapping)
    (hs : (g'.tag n).isScalar = true) : g.Lapses .endless := by
  obtain ⟨tag, entries, hv⟩ := (hg n).isMapping_iff.mpr hm
  have htag : (g.vertex n).tag.ComesFrom (g'.tag n) := (hg n).tag
  rw [hv] at htag
  refine .endless hv ?_
  rcases htag with heq | ⟨hdefault, -⟩
  · have heq : g'.tag n = tag := heq
    exact .inl (heq ▸ hs)
  · exact .inr hdefault

/-- The value of a scalar is missing where a rule is broken or the graph lapses. -/
theorem ComesFrom.of_key_eq_error {e : ReadError} (hg : g.ComesFrom g') (h : g'.key n = .error e) :
    e = .malformed ∨ g.Lapses e := by
  rw [key] at h
  split at h
  · next hscalar =>
    rcases ht : g'.text n with e' | t <;> rw [ht] at h
    · cases h
      refine (of_textWithin_eq_error ht).imp_right ?_
      rintro ⟨rfl, hfuel | hm⟩
      · cases hfuel
      · exact hg.lapses_of_isMapping hm hscalar
    · obtain ⟨m, tag, hm, hn⟩ := exists_scalar_of_textWithin ht
      have hn : n = m ∨ (g.vertex n).IsMapping := hn.imp_right (hg n).isMapping_iff.mpr
      obtain ⟨tag', hm⟩ := hg.exists_scalar hm
      -- the text of a text is never refused
      have hstr : g'.tag n ≠ .str := by
        intro hstr
        rw [hstr] at h
        cases h
      have htag := hg.tag_eq hstr
      simp only [bind, Except.bind] at h
      split at h
      · next hdate hv =>
        cases h
        obtain ⟨tag, entries, hv⟩ := (hg n).isMapping_iff.mpr ⟨_, _, hv⟩
        have hgtag : (g.vertex n).tag = .timestamp := htag.trans hdate
        rw [hv] at hgtag
        cases hgtag
        exact .inr (.dateOfMapping hv)
      · exact .inr (.scalar hm hn (htag ▸ h))
  · cases h
    exact .inl rfl

end Graph

namespace Filled

variable {g : Graph} {α : Type}

/-- What is filled from a graph goes wrong where a rule is broken or the graph lapses. -/
abbrev Fills (g : Graph) (x : Filled α) : Prop :=
  Stays (fun e => e = .malformed ∨ g.Lapses e) (fun s => g.ComesFrom s.graph) x

theorem fills_malformed : Fills g (throw .malformed : Filled α) := .throw (.inl rfl)

theorem fills_strand (n : Nat) : Fills g (strand n) := by
  refine .bind_get fun s hs => ?_
  split
  · exact .pure _
  · split
    · exact (Stays.set (by exact hs)).bind fun _ => Stays.pure _
    · have hkey : EndsIn (fun e => e = .malformed ∨ g.Lapses e) (fun _ => True)
          (s.graph.key n) := by
        rcases h : s.graph.key n with e | key
        · exact hs.of_key_eq_error h
        · trivial
      exact .bind_lift hkey fun key _ => (Stays.set (by exact hs)).bind fun _ => Stays.pure _

theorem fills_key (n : Nat) : Fills g (key n) := by
  refine (fills_strand n).bind fun strand => ?_
  split
  · exact .pure _
  · exact fills_malformed

theorem fills_add (loop : Loop) : Fills g (add loop) :=
  .bind_get fun s hs => (Stays.set (by exact hs)).bind fun _ => Stays.pure _

theorem fills_items (n : Nat) : Fills g (items n) := by
  refine .bind_get fun s _ => ?_
  split
  · exact .pure _
  · exact fills_malformed

theorem fills_merged (n : Nat) : Fills g (merged n) := by
  refine .bind_get fun s hs => ?_
  split
  · next hv =>
    have hm : (g.vertex n).IsMapping := (hs n).isMapping_iff.mpr ⟨_, _, hv⟩
    have hmerges : EndsIn (fun e => e = .malformed ∨ g.Lapses e) (fun r => g.ComesFrom r.2)
        (Merging.mapping n s.graph) :=
      (Merging.merges_mapping hm s.graph hs).imp (fun _ => .inl) fun _ h => h
    exact .bind_lift hmerges fun r hr => (Stays.set (by exact hr)).bind fun _ => Stays.pure _
  · exact fills_malformed

theorem fills_entries (n : Nat) : Fills g (entries n) := by
  refine (fills_merged n).bind fun pairs => ?_
  refine Stays.bind (Stays.mapM (fun e => ?_) pairs) fun _ => .pure _
  exact (fills_key e.1).bind fun _ => (fills_strand e.2).bind fun _ => .pure _

theorem fills_pair (n : Nat) : Fills g (pair n) := by
  refine .bind_get fun s _ => ?_
  split
  · exact (fills_strand _).bind fun _ => (fills_strand _).bind fun _ => fills_add _
  · exact fills_malformed

theorem fills_loop (n : Nat) : Fills g (loop n) := by
  refine .bind_get fun s _ => ?_
  split
  · exact (fills_entries n).bind fun _ => .pure _
  · exact (fills_entries n).bind fun _ => .pure _
  · exact (fills_items n).bind fun _ => (Stays.mapM fills_strand _).bind fun _ => .pure _
  · exact (fills_items n).bind fun _ => (Stays.mapM fills_pair _).bind fun _ => .pure _

theorem fills_fillFrom (fuel i : Nat) : Fills g (fillFrom fuel i) := by
  induction fuel generalizing i with
  | zero => exact .pure ()
  | succ fuel ih =>
    rw [fillFrom]
    refine .bind_get fun s _ => ?_
    split
    · exact .pure ()
    · exact (fills_loop _).bind fun _ =>
        (Stays.of_modify fun _ hs => by exact hs).bind fun _ => ih _

theorem fills_value (n : Nat) : Fills g (value n) := by
  refine (fills_strand n).bind fun strand => .bind_get fun s _ => ?_
  refine (fills_fillFrom _ 0).bind fun _ => ?_
  split
  · exact .pure _
  · exact .bind_get fun _ _ => .pure _

end Filled

/-- A text without a value has a fault of its own, or its graph lapses. -/
theorem of_read_eq_error {t : Text} {e : ReadError} (h : read t = .error e) :
    IsTextFault t e ∨ ∃ g root, Graph.ofText t = .ok (some (g, root)) ∧ g.Lapses e := by
  rw [read] at h
  rcases hg : Graph.ofText t with e' | _ | ⟨g, root⟩ <;> rw [hg] at h
  · cases h
    exact .inl (Graph.isTextFault_of_ofText hg)
  · cases h
  · have hends : EndsIn (fun e => e = .malformed ∨ g.Lapses e) (fun _ => True) (g.content root) :=
      EndsIn.map (Filled.fills_value root _ (.refl g)) fun _ _ => trivial
    change g.content root = .error e at h
    rw [h] at hends
    rcases hends with rfl | hlapses
    · exact .inl trivial
    · exact .inr ⟨g, root, rfl, hlapses⟩

end ZodSchemas.Yaml
