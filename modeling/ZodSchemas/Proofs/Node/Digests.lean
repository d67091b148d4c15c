import ZodSchemas.Node.Equality
import ZodSchemas.Proofs.Validation.Repetition

/-!
# Digests of equal nodes

A table of nodes finds a node by its digest, so equal nodes should have equal
digests. They do: equal values that can be keys denote the same, checks and
options are read in the order in which they are compared, and required names
without any order. Only properties are read in their order although they are
compared without one; so it takes that no two objects at the same place have the
same keys in different orders.
-/

namespace ZodSchemas

namespace Value

/-- An atom is its own key. -/
theorem toKey?_of_shape {v : Value} {key x : Key} (hs : v.shape = .atom key)
    (hk : v.toKey? = some x) : x = key := by
  cases v with
  | atom other =>
    obtain rfl := Option.some.inj hk
    simpa [shape] using hs
  | knot ties n =>
    rw [shape] at hs
    split at hs
    · next loop _ => cases loop <;> simp [shapeOf] at hs
    · next hn => simp [toKey?, hn] at hk
  | _ => simp [shape] at hs

/-- Two values together are the key of their keys. -/
theorem exists_keys_of_pair {v first second : Value} {x : Key} (hs : v.shape = .pair first second)
    (hk : v.toKey? = some x) :
    ∃ a b, first.toKey? = some a ∧ second.toKey? = some b ∧ x = .pair a b := by
  cases v with
  | pair c d =>
    obtain ⟨rfl, rfl⟩ : c = first ∧ d = second := by simpa [shape] using hs
    rw [toKey?] at hk
    split at hk
    · next a b ha hb => exact ⟨a, b, ha, hb, (Option.some.inj hk).symm⟩
    · simp at hk
  | knot ties n =>
    rw [toKey?] at hk
    split at hk
    · next a b hn =>
      obtain ⟨rfl, rfl⟩ : Value.atom a = first ∧ Value.atom b = second := by
        simpa [shape, hn, shapeOf, ofStrand] using hs
      exact ⟨a, b, rfl, rfl, (Option.some.inj hk).symm⟩
    · simp at hk
  | _ => simp [shape] at hs

/-- What is at a place of a knot is that place. -/
theorem eq_knot_of_isAt {ties : Knot} {n : Nat} {v : Value} (h : v.isAt ties n = true) :
    v = .knot ties n := by
  cases v with
  | knot other m =>
    obtain ⟨hm, ho⟩ := (Bool.and_eq_true _ _).mp h
    rw [eq_of_beq hm, of_decide_eq_true ho]
  | _ => simp [isAt] at h

/-- What equals an atom denotes the same. -/
theorem meaning_eq_of_same_atom {v : Value} {key x : Key} (h : v.same (.atom key) = true)
    (hv : v.toKey? = some x) : x.meaning = key.meaning := by
  obtain ⟨other, hs, hk⟩ := same_atom.mp h
  obtain rfl := toKey?_of_shape hs hv
  simpa [Key.same] using hk

/-- Equal values that can be keys denote the same. -/
theorem meaning_eq_of_same : ∀ {a b : Value} {x y : Key}, a.same b = true →
    a.toKey? = some x → b.toKey? = some y → x.meaning = y.meaning
  | a, .atom key, x, y, h, ha, hb => by
    obtain rfl := Option.some.inj hb
    exact meaning_eq_of_same_atom h ha
  | a, .pair c d, x, y, h, ha, hb => by
    obtain ⟨y₁, y₂, hc, hd, rfl⟩ := exists_keys_of_pair rfl hb
    rw [same] at h
    split at h
    · next first second hs =>
      obtain ⟨x₁, x₂, h₁, h₂, rfl⟩ := exists_keys_of_pair hs ha
      obtain ⟨hf, hg⟩ := (Bool.and_eq_true _ _).mp h
      rw [Key.meaning, Key.meaning, meaning_eq_of_same hf h₁ hc, meaning_eq_of_same hg h₂ hd]
    · simp at h
  | a, .knot ties n, x, y, h, ha, hb => by
    -- A key at a place of a knot is two keys together.
    obtain ⟨p, q, hn, rfl⟩ : ∃ p q, ties[n]? = some (.pair (.key p) (.key q)) ∧ y = .pair p q := by
      rw [toKey?] at hb
      split at hb
      · next p q hn => exact ⟨p, q, hn, (Option.some.inj hb).symm⟩
      · simp at hb
    rw [same, sameAt, Bool.or_eq_true] at h
    rcases h with h | h
    · rw [eq_knot_of_isAt h] at ha
      rw [Option.some.inj (ha.symm.trans hb)]
    · cases hs : a.shape with
      | pair first second =>
        rw [hs, hn] at h
        obtain ⟨x₁, x₂, h₁, h₂, rfl⟩ := exists_keys_of_pair hs ha
        obtain ⟨hf, hg⟩ := (Bool.and_eq_true _ _).mp h
        have hfirst : first.same (.atom p) = true := by rw [same]; exact hf
        have hsecond : second.same (.atom q) = true := by rw [same]; exact hg
        rw [Key.meaning, Key.meaning, meaning_eq_of_same_atom hfirst h₁,
          meaning_eq_of_same_atom hsecond h₂]
      | _ => simp [hs, hn] at h
  | a, .list _, x, y, h, ha, hb => by simp [toKey?] at hb
  | a, .map _, x, y, h, ha, hb => by simp [toKey?] at hb
  | a, .set _, x, y, h, ha, hb => by simp [toKey?] at hb

/-- Equal values have agreeing digests. -/
theorem digest_agrees {a b : Value} {x y : Digest} (h : a.same b = true) (ha : a.digest = .ok x)
    (hb : b.digest = .ok y) : x.agrees y = true := by
  unfold digest at ha hb
  split at ha
  · next k hk =>
    split at hb
    · next l hl =>
      obtain rfl := Except.ok.inj ha
      obtain rfl := Except.ok.inj hb
      simp [Digest.agrees, meaning_eq_of_same h hk hl]
    · simp at hb
  · simp at ha

end Value

/-- Equal checks have agreeing digests. -/
theorem Check.digest_agrees {a b : Check} {x y : Digest} (h : a.same b = true)
    (ha : a.digest = .ok x) (hb : b.digest = .ok y) : x.agrees y = true := by
  obtain ⟨hk, hs⟩ := (Bool.and_eq_true _ _).mp h
  obtain ⟨bound, hx, ha⟩ := exceptBind_eq_ok.mp ha
  obtain ⟨other, hy, hb⟩ := exceptBind_eq_ok.mp hb
  obtain rfl := Except.ok.inj ha
  obtain rfl := Except.ok.inj hb
  simp [Digest.agrees, Digest.agreeInOrder, of_decide_eq_true hk, Value.digest_agrees hs hx hy]

namespace Digest

/-- Parts agree in their order. -/
theorem agrees_parts (xs ys : List Digest) :
    (Digest.parts xs).agrees (.parts ys) = agreeInOrder xs ys := by
  rw [agrees]

/-- Digests of one part agree when the parts do. -/
theorem agrees_of_part {a b : Except Fault Digest} {x y : Digest}
    (ha : (a >>= fun d => .ok (.parts [d])) = .ok x)
    (hb : (b >>= fun d => .ok (.parts [d])) = .ok y)
    (h : ∀ d e, a = .ok d → b = .ok e → d.agrees e = true) : x.agrees y = true := by
  obtain ⟨d, hd, ha⟩ := exceptBind_eq_ok.mp ha
  obtain ⟨e, he, hb⟩ := exceptBind_eq_ok.mp hb
  obtain rfl := Except.ok.inj ha
  obtain rfl := Except.ok.inj hb
  simp [agrees_parts, agreeInOrder, h d e hd he]

/-- Digests of one list of parts agree when the parts do in their order. -/
theorem agrees_of_list {a b : Except Fault (List Digest)} {x y : Digest}
    (ha : (a >>= fun ds => .ok (.parts [.parts ds])) = .ok x)
    (hb : (b >>= fun ds => .ok (.parts [.parts ds])) = .ok y)
    (h : ∀ ds es, a = .ok ds → b = .ok es → agreeInOrder ds es = true) : x.agrees y = true := by
  obtain ⟨ds, hd, ha⟩ := exceptBind_eq_ok.mp ha
  obtain ⟨es, he, hb⟩ := exceptBind_eq_ok.mp hb
  obtain rfl := Except.ok.inj ha
  obtain rfl := Except.ok.inj hb
  simp [agrees_parts, agreeInOrder, h ds es hd he]

/-- The same keys in any order agree as sets. -/
theorem agrees_set {keys others : List Key} (h : sameKeys keys others = true) :
    (Digest.set (keys.map Key.meaning)).agrees (.set (others.map Key.meaning)) = true := by
  have included : ∀ {keys others : List Key}, includesKeys keys others = true →
      ((keys.map Key.meaning).all fun m => decide (m ∈ others.map Key.meaning)) = true := by
    intro keys others h
    refine List.all_eq_true.mpr fun m hm => ?_
    obtain ⟨k, hk, rfl⟩ := List.mem_map.mp hm
    obtain ⟨other, ho, hs⟩ := Key.isAmong_iff.mp (List.all_eq_true.mp h k hk)
    exact decide_eq_true (List.mem_map.mpr ⟨other, ho, of_decide_eq_true hs⟩)
  obtain ⟨hk, ho⟩ := (Bool.and_eq_true _ _).mp h
  rw [agrees, included hk, included ho]
  rfl

/-- Digests in front of others agree in order when they agree and the others do. -/
theorem agreeInOrder_of_cons {a b : Except Fault Digest} {as bs : Except Fault (List Digest)}
    {f g : Digest → Digest} {xs ys : List Digest}
    (ha : (a >>= fun d => as >>= fun ds => .ok (f d :: ds)) = .ok xs)
    (hb : (b >>= fun e => bs >>= fun es => .ok (g e :: es)) = .ok ys)
    (hfirst : ∀ d e, a = .ok d → b = .ok e → (f d).agrees (g e) = true)
    (hrest : ∀ ds es, as = .ok ds → bs = .ok es → agreeInOrder ds es = true) :
    agreeInOrder xs ys = true := by
  obtain ⟨d, hd, ha⟩ := exceptBind_eq_ok.mp ha
  obtain ⟨ds, hds, ha⟩ := exceptBind_eq_ok.mp ha
  obtain ⟨e, he, hb⟩ := exceptBind_eq_ok.mp hb
  obtain ⟨es, hes, hb⟩ := exceptBind_eq_ok.mp hb
  obtain rfl := Except.ok.inj ha
  obtain rfl := Except.ok.inj hb
  rw [agreeInOrder, hfirst d e hd he, hrest ds es hds hes, Bool.and_self]

/-- What agrees one by one agrees in order. -/
theorem agreeInOrder_of_mapM {α : Type} {r : α → α → Prop} {f : α → Except Fault Digest}
    (hf : ∀ a b x y, r a b → f a = .ok x → f b = .ok y → x.agrees y = true) {as bs : List α}
    {xs ys : List Digest} (h : List.Forall₂ r as bs) (ha : as.mapM f = .ok xs)
    (hb : bs.mapM f = .ok ys) : agreeInOrder xs ys = true := by
  induction h generalizing xs ys with
  | nil =>
    obtain rfl := Except.ok.inj ha
    obtain rfl := Except.ok.inj hb
    rfl
  | cons hab _ ih =>
    rw [List.mapM_cons] at ha hb
    exact agreeInOrder_of_cons ha hb (fun x y => hf _ _ x y hab) fun _ _ => ih

end Digest

namespace Node

/-- At the same place of two nodes there are objects with the same keys in different orders. -/
inductive Reorders : Node → Node → Prop where
  /-- The nodes are such objects. -/
  | here {ps qs : Entries Node} {required others : List Key} (length : ps.length = qs.length)
      (keys : ∀ p ∈ ps, qs.has p.1 = true)
      (order : ps.map (fun p => p.1.meaning) ≠ qs.map (fun q => q.1.meaning)) :
      Reorders (.object ps required) (.object qs others)
  /-- Under a key that both have. -/
  | property {ps qs : Entries Node} {required others : List Key} {p : Key × Node} {b : Node}
      (member : p ∈ ps) (found : Entries.find? p.1 qs = some b) (inside : Reorders p.2 b) :
      Reorders (.object ps required) (.object qs others)
  /-- In the elements of lists. -/
  | element {a b : Node} (inside : Reorders a b) : Reorders (.array a) (.array b)
  /-- In options at one index. -/
  | option {as bs : List Node} {e : Node × Node} (member : e ∈ as.zip bs)
      (inside : Reorders e.1 e.2) : Reorders (.union as) (.union bs)
  /-- Beside null. -/
  | nullable {a b : Node} (inside : Reorders a b) : Reorders (.nullable a) (.nullable b)
  /-- Beside absence. -/
  | optional {a b : Node} (inside : Reorders a b) : Reorders (.optional a) (.optional b)

/-- Properties are equal when there is an equal one under each key. -/
theorem sameProperties_iff {ps qs : Entries Node} : sameProperties ps qs = true ↔
    ∀ p ∈ ps, ∃ b, Entries.find? p.1 qs = some b ∧ p.2.same b = true := by
  induction ps with
  | nil => simp [sameProperties]
  | cons p rest ih =>
    obtain ⟨k, a⟩ := p
    rw [sameProperties, Bool.and_eq_true, ih, List.forall_mem_cons]
    refine and_congr_left fun _ => ?_
    cases Entries.find? k qs <;> simp

/-- Options are equal one by one. -/
theorem sameOptions_iff {as bs : List Node} :
    sameOptions as bs = true ↔ List.Forall₂ (fun a b => a.same b = true) as bs := by
  induction as generalizing bs with
  | nil => cases bs <;> simp [sameOptions]
  | cons a as ih => cases bs <;> simp [sameOptions, ih]

/-- Checks are equal one by one. -/
theorem sameChecks_iff {as bs : List Check} :
    sameChecks as bs = true ↔ List.Forall₂ (fun a b => a.same b = true) as bs := by
  induction as generalizing bs with
  | nil => cases bs <;> simp [sameChecks]
  | cons a as ih => cases bs <;> simp [sameChecks, ih]

/-- Two nodes are equal, with all properties in the same order. -/
structure InStep (a b : Node) : Prop where
  /-- The nodes are equal. -/
  same : a.same b = true
  /-- No keys stand in different orders. -/
  ordered : ¬ a.Reorders b
  /-- No object has two properties under one key. -/
  differ : ∀ inner : Node, inner.IsWithin b → inner.HasDifferentKeys

namespace InStep

variable {a b : Node}

/-- What stands at one place inside is in step. -/
theorem part {c d : Node} (h : InStep a b) (hs : c.same d = true)
    (hr : c.Reorders d → a.Reorders b) (hd : d.IsPartOf b) : InStep c d where
  same := hs
  ordered hcd := h.ordered (hr hcd)
  differ inner hi := h.differ inner (hi.tail hd)

/-- Elements are in step. -/
theorem element (h : InStep (.array a) (.array b)) : InStep a b :=
  h.part (by simpa [Node.same] using h.same) .element .element

/-- What stands beside null is in step. -/
theorem nullable (h : InStep (.nullable a) (.nullable b)) : InStep a b :=
  h.part (by simpa [Node.same] using h.same) .nullable .nullable

/-- What stands beside absence is in step. -/
theorem optional (h : InStep (.optional a) (.optional b)) : InStep a b :=
  h.part (by simpa [Node.same] using h.same) .optional .optional

/-- Options are in step one by one. -/
theorem options {as bs : List Node} (h : InStep (.union as) (.union bs)) :
    List.Forall₂ InStep as bs := by
  have hs : List.Forall₂ (fun a b => a.same b = true) as bs :=
    sameOptions_iff.mp (by simpa [Node.same] using h.same)
  refine List.forall₂_iff_zip.mpr ⟨hs.length_eq, fun {a b} hm => ?_⟩
  exact h.part (List.forall₂_zip hs hm) (.option hm) (.option (List.of_mem_zip hm).2)

/-- Properties are in step one by one, with the same keys. -/
theorem properties {ps qs : Entries Node} {required others : List Key}
    (h : InStep (.object ps required) (.object qs others)) :
    List.Forall₂ (fun p q => p.1.meaning = q.1.meaning ∧ InStep p.2 q.2) ps qs := by
  obtain ⟨hlength, hsame⟩ : ps.length = qs.length ∧
      ∀ p ∈ ps, ∃ b, Entries.find? p.1 qs = some b ∧ p.2.same b = true := by
    have hs := h.same
    rw [Node.same, Bool.and_eq_true, Bool.and_eq_true] at hs
    exact ⟨eq_of_beq hs.1.1, sameProperties_iff.mp hs.1.2⟩
  have hhas : ∀ p ∈ ps, qs.has p.1 = true := fun p hp => by
    obtain ⟨b, hb, -⟩ := hsame p hp
    simp [Entries.has, hb]
  have horder : ps.map (fun p => p.1.meaning) = qs.map (fun q => q.1.meaning) := by
    by_contra hne
    exact h.ordered (.here hlength hhas hne)
  have hkeys : List.Forall₂ (fun p q : Key × Node => p.1.meaning = q.1.meaning) ps qs := by
    have he : List.Forall₂ Eq (ps.map fun p => p.1.meaning) (qs.map fun q => q.1.meaning) := by
      rw [List.forall₂_eq_eq_eq, horder]
    rwa [List.forall₂_map_left_iff, List.forall₂_map_right_iff] at he
  refine List.forall₂_iff_zip.mpr ⟨hlength, fun {p q} hm => ?_⟩
  have hpq : p.1.meaning = q.1.meaning := List.forall₂_zip hkeys hm
  obtain ⟨hp, hq⟩ := List.of_mem_zip hm
  -- The keys differ, so what is found under the key is the property at the same index.
  have hfound : Entries.find? p.1 qs = some q.2 := by
    rw [Entries.find?_congr (decide_eq_true hpq)]
    exact Entries.find?_of_mem (h.differ _ .refl qs others rfl) hq
  obtain ⟨b, hb, hs⟩ := hsame p hp
  obtain rfl := Option.some.inj (hfound.symm.trans hb)
  exact ⟨hpq, h.part hs (.property hp hfound) (.property hq)⟩

end InStep

mutual

/-- Nodes that are equal with all properties in the same order have agreeing digests. -/
theorem digest_agrees : ∀ (a b : Node) (x y : Digest), InStep a b → a.digest = .ok x →
    b.digest = .ok y → x.agrees y = true
  | .object ps required, b, x, y, h, ha, hb => by
    cases b with
    | object qs others =>
      obtain ⟨xs, hx, ha⟩ := exceptBind_eq_ok.mp ha
      obtain ⟨ys, hy, hb⟩ := exceptBind_eq_ok.mp hb
      obtain rfl := Except.ok.inj ha
      obtain rfl := Except.ok.inj hb
      have hrequired : sameKeys required others = true := by
        have hs := h.same
        rw [Node.same, Bool.and_eq_true] at hs
        exact hs.2
      have hparts := agreeInOrder_of_properties ps qs xs ys h.properties hx hy
      simp only [Digest.agrees_parts, Digest.agreeInOrder, hparts, Digest.agrees_set hrequired,
        Bool.and_self]
    | _ => exact absurd h.same (by simp [Node.same])
  | .array a, b, x, y, h, ha, hb => by
    cases b with
    | array b =>
      exact Digest.agrees_of_part ha hb fun d e => digest_agrees a b d e h.element
    | _ => exact absurd h.same (by simp [Node.same])
  | .nullable a, b, x, y, h, ha, hb => by
    cases b with
    | nullable b =>
      exact Digest.agrees_of_part ha hb fun d e => digest_agrees a b d e h.nullable
    | _ => exact absurd h.same (by simp [Node.same])
  | .optional a, b, x, y, h, ha, hb => by
    cases b with
    | optional b =>
      exact Digest.agrees_of_part ha hb fun d e => digest_agrees a b d e h.optional
    | _ => exact absurd h.same (by simp [Node.same])
  | .union as, b, x, y, h, ha, hb => by
    cases b with
    | union bs =>
      exact Digest.agrees_of_list ha hb fun ds es => agreeInOrder_of_options as bs ds es h.options
    | _ => exact absurd h.same (by simp [Node.same])
  | .string as, b, x, y, h, ha, hb => by
    cases b with
    | string bs =>
      have hs := sameChecks_iff.mp (by simpa [Node.same] using h.same)
      exact Digest.agrees_of_list ha hb fun _ _ => Digest.agreeInOrder_of_mapM (f := Check.digest)
        (fun _ _ _ _ => Check.digest_agrees) hs
    | _ => exact absurd h.same (by simp [Node.same])
  | .enum as, b, x, y, h, ha, hb => by
    cases b with
    | enum bs =>
      have hs := Value.sameItems_iff.mp (by simpa [Node.same] using h.same)
      exact Digest.agrees_of_list ha hb fun _ _ => Digest.agreeInOrder_of_mapM (f := Value.digest)
        (fun _ _ _ _ => Value.digest_agrees) hs
    | _ => exact absurd h.same (by simp [Node.same])
  | .literal a, b, x, y, h, ha, hb => by
    cases b with
    | literal b =>
      have hs : a.same b = true := by simpa [Node.same] using h.same
      exact Digest.agrees_of_part ha hb fun _ _ => Value.digest_agrees hs
    | _ => exact absurd h.same (by simp [Node.same])
  | .lazy a, b, x, y, h, ha, hb => by
    cases b with
    | lazy b =>
      obtain rfl := Except.ok.inj ha
      obtain rfl := Except.ok.inj hb
      have hs : a.name.same b.name = true := by simpa [Node.same] using h.same
      simpa [Digest.agrees, Digest.agreeInOrder, Key.same] using hs
    | _ => exact absurd h.same (by simp [Node.same])
  | .number, b, x, y, h, ha, hb | .boolean, b, x, y, h, ha, hb | .never, b, x, y, h, ha, hb
  | .unknown, b, x, y, h, ha, hb | .plain, b, x, y, h, ha, hb => by
    obtain rfl := Except.ok.inj ha
    cases b with
    | number | boolean | never | unknown | plain =>
      obtain rfl := Except.ok.inj hb
      rfl
    | _ => exact absurd h.same (by simp [Node.same])

/-- Properties in step have agreeing digests in order. -/
theorem agreeInOrder_of_properties : ∀ (ps qs : List (Key × Node)) (xs ys : List Digest),
    List.Forall₂ (fun p q => p.1.meaning = q.1.meaning ∧ InStep p.2 q.2) ps qs →
    propertyDigests ps = .ok xs → propertyDigests qs = .ok ys → Digest.agreeInOrder xs ys = true
  | [], [], xs, ys, _, ha, hb => by
    obtain rfl := Except.ok.inj ha
    obtain rfl := Except.ok.inj hb
    rfl
  | [], _ :: _, _, _, h, _, _ | _ :: _, [], _, _, h, _, _ => by cases h
  | (k, a) :: ps, (l, b) :: qs, xs, ys, h, ha, hb => by
    obtain ⟨⟨hk, hab⟩, hrest⟩ := List.forall₂_cons.mp h
    refine Digest.agreeInOrder_of_cons ha hb (fun x y hx hy => ?_) fun xs ys =>
      agreeInOrder_of_properties ps qs xs ys hrest
    have hk : k.meaning = l.meaning := hk
    simp [Digest.agrees, Digest.agreeInOrder, hk, digest_agrees a b x y hab hx hy]

/-- Options in step have agreeing digests in order. -/
theorem agreeInOrder_of_options : ∀ (as bs : List Node) (xs ys : List Digest),
    List.Forall₂ InStep as bs → optionDigests as = .ok xs → optionDigests bs = .ok ys →
    Digest.agreeInOrder xs ys = true
  | [], [], xs, ys, _, ha, hb => by
    obtain rfl := Except.ok.inj ha
    obtain rfl := Except.ok.inj hb
    rfl
  | [], _ :: _, _, _, h, _, _ | _ :: _, [], _, _, h, _, _ => by cases h
  | a :: as, b :: bs, xs, ys, h, ha, hb => by
    obtain ⟨hab, hrest⟩ := List.forall₂_cons.mp h
    exact Digest.agreeInOrder_of_cons ha hb (fun x y => digest_agrees a b x y hab) fun xs ys =>
      agreeInOrder_of_options as bs xs ys hrest

end

/-- Of two nodes that can be filed, and nowhere have the same keys in different orders, equal ones
are filed alike, and a table keeps one of them exactly when they are equal. -/
theorem equal_nodes_are_one {a b : Node} {x y : Digest} (ha : a.digest = .ok x)
    (hb : b.digest = .ok y) (hk : ∀ inner : Node, inner.IsWithin b → inner.HasDifferentKeys)
    (ho : ¬ a.Reorders b) :
    (a.same b = true → x.agrees y = true) ∧
      a.countDistinct b = .ok (if a.same b = true then 1 else 2) := by
  have hagrees : a.same b = true → x.agrees y = true := fun hs =>
    digest_agrees a b x y ⟨hs, ho, hk⟩ ha hb
  refine ⟨hagrees, ?_⟩
  rw [countDistinct, ha, hb]
  by_cases hs : a.same b = true
  · simp [bind, Except.bind, hs, hagrees hs]
  · simp [bind, Except.bind, hs]

/-- A pair of a text and a number. -/
def pairNode : Node := .object [("a", .string []), ("b", .number)] ["a", "b"]

/-- The same with the required names in the other order. -/
def otherPairNode : Node := .object [("a", .string []), ("b", .number)] ["b", "a"]

/-- Nodes that differ in the order of required names are one. -/
theorem equal_nodes_are_one_pair : pairNode.same otherPairNode = true ∧
    pairNode.countDistinct otherPairNode = .ok 1 := by
  have hk : ∀ inner : Node, inner.IsWithin otherPairNode → inner.HasDifferentKeys := by
    intro inner hi
    rcases Relation.ReflTransGen.cases_tail hi with rfl | ⟨part, hi, hp⟩
    · rintro nodes required ⟨⟩
      simp +decide [KeysDiffer]
    · -- Nothing stands inside the parts.
      have hpart : part = .string [] ∨ part = .number := by
        cases hp with
        | property member => exact (by simpa using member : _ ∨ _).imp And.right And.right
      rcases hpart with rfl | rfl <;>
        rcases Relation.ReflTransGen.cases_tail hi with rfl | ⟨part, -, ⟨⟩⟩ <;>
        rintro nodes required ⟨⟩
  have ho : ¬ pairNode.Reorders otherPairNode := by
    intro h
    cases h with
    | here _ _ order => exact order rfl
    | property member _ inside =>
      simp only [List.mem_cons, List.not_mem_nil, or_false] at member
      rcases member with rfl | rfl <;> cases inside
  have hs : pairNode.same otherPairNode = true := by decide
  have h := equal_nodes_are_one (a := pairNode) (b := otherPairNode) rfl rfl hk ho
  exact ⟨hs, by rw [h.2, if_pos hs]⟩

/-- The pair with its properties in the other order. -/
def swappedPairNode : Node := .object [("b", .number), ("a", .string [])] ["a", "b"]

/-- Objects whose properties stand in different orders are equal, and a table keeps both. -/
theorem equal_nodes_are_two : pairNode.same swappedPairNode = true ∧
    pairNode.countDistinct swappedPairNode = .ok 2 := ⟨by decide, rfl⟩

end Node

end ZodSchemas
