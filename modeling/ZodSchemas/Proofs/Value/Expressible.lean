import Mathlib.Logic.Relation
import ZodSchemas.Json.Printer
import ZodSchemas.Proofs.Value.Written
import ZodSchemas.Value.Finite

/-!
# Values that have a literal

Lists, and mappings from texts, of values that have a literal have one, and so
have atoms other than dates and octets whose digits are not too many. These are
the values that JSON expresses; they may stand in several places of a document,
but never inside themselves. So a literal is written to its end: the places
around a place of a knot are places that it is inside of, and it is none of
them.
-/

namespace ZodSchemas

section Success

variable {ε α β : Type} {x : Except ε α}

/-- A composed computation ends with a value when its parts do. -/
theorem exists_bind_eq_ok {f : α → Except ε β} (hx : ∃ a, x = .ok a) (hf : ∀ a, ∃ b, f a = .ok b) :
    ∃ b, x >>= f = .ok b := by
  obtain ⟨a, rfl⟩ := hx
  exact hf a

/-- A function of the value of a computation has a value when the computation has one. -/
theorem exists_map_eq_ok {f : α → β} (hx : ∃ a, x = .ok a) : ∃ b, x.map f = .ok b := by
  obtain ⟨a, rfl⟩ := hx
  exact ⟨f a, rfl⟩

/-- A list of computations ends with a list of values when each of them ends with one. -/
theorem exists_mapM_eq_ok {f : α → Except ε β} {xs : List α} (h : ∀ x ∈ xs, ∃ y, f x = .ok y) :
    ∃ ys, xs.mapM f = .ok ys := by
  induction xs with
  | nil => exact ⟨[], rfl⟩
  | cons x rest ih =>
    obtain ⟨hx, hrest⟩ := List.forall_mem_cons.mp h
    rw [List.mapM_cons]
    exact exists_bind_eq_ok hx fun _ => exists_bind_eq_ok (ih hrest) fun _ => ⟨_, rfl⟩

end Success

/-- A list, a mapping from texts, or an atom that can be written. -/
inductive Value.IsExpressible : Value → Prop where
  /-- An atom that can be written. -/
  | atom {v : Value} {key : Key} (shape : v.shape = .atom key)
      (written : ∃ t, Json.writeKey key = .ok t) : IsExpressible v
  /-- A list of such values. -/
  | list {v : Value} {items : List Value} (shape : v.shape = .list items)
      (values : ∀ w ∈ items, IsExpressible w) : IsExpressible v
  /-- A mapping from texts to such values. -/
  | map {v : Value} {entries : Entries Value} (shape : v.shape = .map entries)
      (texts : ∀ e ∈ entries, ∃ t, e.1 = .text t) (values : ∀ e ∈ entries, IsExpressible e.2) :
      IsExpressible v

namespace Value

/-- A value is right inside another one. -/
def IsPart (inner outer : Value) : Prop := inner ∈ outer.parts

namespace IsExpressible

variable {v w : Value}

/-- What such a value is on its outside, and what is inside it. -/
theorem inversion (h : v.IsExpressible) :
    match v.shape with
    | .atom key => ∃ t, Json.writeKey key = .ok t
    | .list items => ∀ w ∈ items, w.IsExpressible
    | .map entries => ∀ e ∈ entries, (∃ t, e.1 = .text t) ∧ e.2.IsExpressible
    | .pair _ _ | .set _ => False := by
  cases h with
  | atom hs hw => simpa only [hs] using hw
  | list hs hw => simpa only [hs] using hw
  | map hs ht hw => simpa only [hs] using fun e he => ⟨ht e he, hw e he⟩

/-- What is inside such a value is one. -/
theorem part (h : v.IsExpressible) (hw : IsPart w v) : w.IsExpressible := by
  have hi := h.inversion
  unfold IsPart parts at hw
  split at hw <;> rename_i hs <;> simp only [hs] at hi
  · exact hi w hw
  · obtain ⟨e, he, rfl⟩ := List.mem_map.mp hw
    exact (hi e he).2
  · simp at hw

/-- Every walk into such a value ends. -/
theorem acc (h : v.IsExpressible) : Acc IsPart v := by
  induction h with
  | atom hs _ => exact .intro _ fun w hw => by simp [IsPart, parts, hs] at hw
  | list hs _ ih =>
    refine .intro _ fun w hw => ih w ?_
    simpa only [IsPart, parts, hs] using hw
  | map hs _ _ ih =>
    refine .intro _ fun w hw => ?_
    simp only [IsPart, parts, hs] at hw
    obtain ⟨e, he, rfl⟩ := List.mem_map.mp hw
    exact ih e he

/-- Such a value is not inside itself. -/
theorem not_inside_itself (h : v.IsExpressible) : ¬ Relation.TransGen IsPart v v := by
  have irreflexive : ∀ v, Acc (Relation.TransGen IsPart) v → ¬ Relation.TransGen IsPart v v := by
    intro v ha
    induction ha with
    | intro v _ ih => exact fun hv => ih v hv hv
  exact irreflexive v h.acc.transGen

end IsExpressible

section Knots

variable {knot : Knot} {n : Nat}

/-- A place of a knot has the shape of what stands there. -/
theorem shape_knot {loop : Loop} (h : knot[n]? = some loop) :
    (Value.knot knot n).shape = shapeOf knot loop := by
  simp only [shape, h]

/-- What stands in a list of a knot is inside it. -/
theorem isPart_of_list {items : List Strand} (h : knot[n]? = some (.list items)) {strand : Strand}
    (hm : strand ∈ items) : IsPart (ofStrand knot strand) (.knot knot n) := by
  simp only [IsPart, parts, shape_knot h, shapeOf]
  exact List.mem_map_of_mem hm

/-- What stands in a mapping of a knot is inside it. -/
theorem isPart_of_map {entries : Entries Strand} (h : knot[n]? = some (.map entries))
    {e : Key × Strand} (hm : e ∈ entries) : IsPart (ofStrand knot e.2) (.knot knot n) := by
  simp only [IsPart, parts, shape_knot h, shapeOf, List.map_map]
  exact List.mem_map_of_mem (f := fun e : Key × Strand => ofStrand knot e.2) hm

end Knots

end Value

namespace Json

/-- A place of a knot that holds such a value can be written when it is inside of all places around
it. -/
theorem exists_writePlace {knot : Knot} {n : Nat} (h : (Value.knot knot n).IsExpressible)
    {fuel : Nat} {around : List Nat} (hd : around.Nodup) (hi : ∀ p ∈ around, p < knot.size)
    (hf : knot.size < fuel + around.length)
    (ha : ∀ p ∈ around, Relation.TransGen Value.IsPart (.knot knot n) (.knot knot p)) :
    ∃ t, writePlace knot fuel around n = .ok t := by
  induction fuel generalizing n around with
  | zero =>
    have hl := Value.length_le_of_nodup hd hi
    omega
  | succ fuel ih =>
    have hn : n ∉ around := fun hm => h.not_inside_itself (ha n hm)
    rw [writePlace]
    simp only [if_neg hn]
    cases hs : knot[n]? with
    | none => exact ⟨_, rfl⟩
    | some loop =>
      have hsize : n < knot.size := (Array.getElem?_eq_some_iff.mp hs).1
      have inside : ∀ m, Value.IsPart (.knot knot m) (.knot knot n) →
          ∃ t, writePlace knot fuel (n :: around) m = .ok t := fun m hp =>
        ih (h.part hp) (List.nodup_cons.mpr ⟨hn, hd⟩) (List.forall_mem_cons.mpr ⟨hsize, hi⟩)
          (by rw [List.length_cons]; omega)
          (List.forall_mem_cons.mpr ⟨.single hp, fun p hm => .trans (.single hp) (ha p hm)⟩)
      have hinversion := h.inversion
      rw [Value.shape_knot hs] at hinversion
      cases loop with
      | list items =>
        refine exists_map_eq_ok (exists_mapM_eq_ok fun strand hm => ?_)
        have hp := Value.isPart_of_list hs hm
        cases strand with
        | key key => exact (h.part hp).inversion
        | place m => exact inside m hp
      | pair a b => exact hinversion.elim
      | map entries =>
        refine exists_bind_eq_ok (exists_mapM_eq_ok fun e hm => ?_) fun _ => ⟨_, rfl⟩
        obtain ⟨key, strand⟩ := e
        obtain ⟨⟨t, rfl⟩, -⟩ := hinversion (key, Value.ofStrand knot strand)
          (List.mem_map_of_mem (f := fun e : Key × Strand => (e.1, Value.ofStrand knot e.2)) hm)
        refine exists_bind_eq_ok ⟨writeText t, rfl⟩ fun _ => exists_bind_eq_ok ?_ fun _ => ⟨_, rfl⟩
        have hp := Value.isPart_of_map hs hm
        cases strand with
        | key key => exact (h.part hp).inversion
        | place m => exact inside m hp
      | set items => exact hinversion.elim

/-- Items that can be written each can be written together. -/
theorem exists_writeItems {items : List Value} (h : ∀ v ∈ items, ∃ t, write v = .ok t) :
    ∃ parts, writeItems items = .ok parts := by
  induction items with
  | nil => exact ⟨[], rfl⟩
  | cons v rest ih =>
    obtain ⟨hv, hrest⟩ := List.forall_mem_cons.mp h
    rw [writeItems]
    exact exists_bind_eq_ok hv fun _ => exists_bind_eq_ok (ih hrest) fun _ => ⟨_, rfl⟩

/-- Entries with texts as names can be written together when what stands under each name can. -/
theorem exists_writeEntries {entries : Entries Value}
    (h : ∀ e ∈ entries, (∃ t, e.1 = .text t) ∧ ∃ t, write e.2 = .ok t) :
    ∃ parts, writeEntries entries = .ok parts := by
  induction entries with
  | nil => exact ⟨[], rfl⟩
  | cons e rest ih =>
    obtain ⟨key, v⟩ := e
    obtain ⟨⟨⟨name, hname⟩, hv⟩, hrest⟩ := List.forall_mem_cons.mp h
    obtain rfl : key = .text name := hname
    rw [writeEntries]
    exact exists_bind_eq_ok ⟨writeText name, rfl⟩ fun _ => exists_bind_eq_ok hv fun _ =>
      exists_bind_eq_ok (ih hrest) fun _ => ⟨_, rfl⟩

/-- Such values can be written. -/
theorem exists_write {v : Value} (h : v.IsExpressible) : ∃ t, write v = .ok t := by
  have place : ∀ {ties : Knot} {n : Nat}, (Value.knot ties n).IsExpressible →
      ∃ t, write (.knot ties n) = .ok t := fun h => by
    rw [write]
    exact exists_writePlace h List.nodup_nil (by simp) (by simp) (by simp)
  induction h with
  | @atom v key hs hw =>
    cases v with
    | atom key =>
      obtain rfl := Shape.atom.inj hs
      rw [write]
      exact hw
    | knot ties n => exact place (.atom hs hw)
    | _ => cases hs
  | @list v items hs hw ih =>
    cases v with
    | list items =>
      obtain rfl := Shape.list.inj hs
      rw [write]
      exact exists_bind_eq_ok (exists_writeItems ih) fun _ => ⟨_, rfl⟩
    | knot ties n => exact place (.list hs hw)
    | _ => cases hs
  | @map v entries hs ht hw ih =>
    cases v with
    | map entries =>
      obtain rfl := Shape.map.inj hs
      rw [write]
      exact exists_bind_eq_ok (exists_writeEntries fun e he => ⟨ht e he, ih e he⟩) fun _ =>
        ⟨_, rfl⟩
    | knot ties n => exact place (.map hs ht hw)
    | _ => cases hs

end Json

end ZodSchemas
