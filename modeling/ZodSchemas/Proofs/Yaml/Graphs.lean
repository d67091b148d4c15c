import ZodSchemas.Proofs.Yaml.Tokens
import ZodSchemas.Yaml.Graph

/-!
# Faults of graphs

While a graph is put together from tokens, only two things go wrong: a token
stands where it must not, or the tokens hold a fault. So a text that has no
graph has a fault of its own.
-/

namespace ZodSchemas.Yaml

namespace Building

variable {t : Text} {α : Type}

/-- Faults among the tokens that are left are faults of the text. -/
def IsLeft (t : Text) (b : Builder) : Prop := ∀ e, Token.fault e ∈ b.tokens → IsTextFault t e

/-- A computation goes wrong with a fault of the text only. -/
abbrev Builds (t : Text) (x : Building α) : Prop := Stays (IsTextFault t) (IsLeft t) x

theorem builds_refuse : Builds t (Building.refuse : Building α) := .throw trivial

theorem builds_peek : Builds t peek := by
  intro b hb
  obtain ⟨tokens, handles, anchors, graph⟩ := b
  rcases tokens with _ | ⟨token, rest⟩
  · exact hb
  · cases token with
    | fault e => exact hb e List.mem_cons_self
    | _ => exact hb

theorem builds_drop : Builds t drop := fun _ hb e he => hb e (List.mem_of_mem_drop he)

theorem builds_wholeTag (tag : WrittenTag) : Builds t (wholeTag tag) := by
  rw [wholeTag]
  split
  · exact .pure _
  · refine .bind_get fun b _ => ?_
    split
    · exact .pure _
    · exact builds_refuse

theorem builds_anchor? : Builds t anchor? := by
  refine builds_peek.bind fun token => ?_
  split
  · exact builds_drop.bind fun _ => .pure _
  · exact .pure _

theorem builds_tag? : Builds t tag? := by
  refine builds_peek.bind fun token => ?_
  split
  · exact builds_drop.bind fun _ => .pure _
  · exact .pure _

theorem builds_properties : Builds t properties := by
  refine builds_anchor?.bind fun first => builds_tag?.bind fun tag => ?_
  have hend : ∀ second : Option Text, Builds t (do
      let tag ← tag.mapM wholeTag
      Pure.pure (first.or second, tag)) := by
    intro second
    cases tag with
    | none => exact .pure _
    | some tag =>
      exact ((builds_wholeTag tag).bind fun _ => .pure _).bind fun _ => .pure _
  dsimp only
  split
  · exact builds_anchor?.bind hend
  · exact hend none

theorem builds_checkAnchor (anchor : Option Text) : Builds t (checkAnchor anchor) := by
  unfold checkAnchor
  split
  · exact .pure _
  · exact .bind_get fun b _ => .ite builds_refuse (.pure _)

theorem builds_add (anchor : Option Text) (vertex : Vertex) : Builds t (add anchor vertex) :=
  fun _ hb => hb

theorem builds_addFilled {anchor : Option Text} {vertex : List α → Vertex}
    {parts : Building (List α)} (hparts : Builds t parts) :
    Builds t (addFilled anchor vertex parts) :=
  (builds_add anchor _).bind fun _ => hparts.bind fun _ =>
    (Stays.of_modify fun _ hb => by exact hb).bind fun _ => Stays.pure _

theorem builds_namedNode (name : Text) : Builds t (namedNode name) := by
  refine .bind_get fun b _ => ?_
  split
  · exact .pure _
  · exact builds_refuse

theorem builds_bare (anchor tag : Option Text) : Builds t (bare anchor tag) :=
  .ite builds_refuse (builds_add _ _)

theorem builds_nodeUnless (endsHere : Option Token → Bool) {node : Building Nat}
    (h : Builds t node) : Builds t (nodeUnless endsHere node) :=
  builds_peek.bind fun _ => .ite (builds_add _ _) h

theorem builds_valueIfAny (endsHere : Option Token → Bool) {node : Building Nat}
    (h : Builds t node) : Builds t (valueIfAny endsHere node) := by
  refine builds_peek.bind fun token => ?_
  split
  · exact builds_drop.bind fun _ => builds_nodeUnless endsHere h
  · exact builds_add _ _

theorem builds_separated (isFirst : Bool) : Builds t (separated isFirst) := by
  refine builds_peek.bind fun token => ?_
  split
  · exact .pure _
  · exact .pure _
  · refine .ite (.pure _) ?_
    split
    · exact builds_drop.bind fun _ => builds_peek
    · exact builds_refuse

/-! ### Nodes -/

/-- Nodes of at most some parts, and the parts of containers, go wrong with faults of the text. -/
structure BuildsWithin (t : Text) (fuel : Nat) : Prop where
  node (place : Place) : Builds t (node fuel place)
  blockItems : Builds t (blockItems fuel)
  flushItems : Builds t (flushItems fuel)
  blockEntries : Builds t (blockEntries fuel)
  flowPair : Builds t (flowPair fuel)
  flowItems (isFirst : Bool) : Builds t (flowItems fuel isFirst)
  flowEntries (isFirst : Bool) : Builds t (flowEntries fuel isFirst)

namespace BuildsWithin

variable {fuel : Nat}

theorem node_succ (h : BuildsWithin t fuel) (place : Place) :
    Builds t (Building.node (fuel + 1) place) := by
  rw [Building.node]
  refine builds_peek.bind fun token => ?_
  split
  · exact builds_drop.bind fun _ => builds_namedNode _
  · refine builds_properties.bind fun r => builds_peek.bind fun token' => ?_
    refine (builds_checkAnchor _).bind fun _ => ?_
    split
    · exact .ite (builds_addFilled h.flushItems) (builds_bare _ _)
    · exact builds_drop.bind fun _ => builds_add _ _
    · exact builds_drop.bind fun _ => builds_addFilled (h.flowItems true)
    · exact builds_drop.bind fun _ => builds_addFilled (h.flowEntries true)
    · exact .ite (builds_bare _ _) (builds_drop.bind fun _ => builds_addFilled h.blockItems)
    · exact .ite (builds_bare _ _) (builds_drop.bind fun _ => builds_addFilled h.blockEntries)
    · exact builds_bare _ _

theorem blockItems_succ (h : BuildsWithin t fuel) : Builds t (Building.blockItems (fuel + 1)) := by
  rw [Building.blockItems]
  refine builds_peek.bind fun token => ?_
  split
  · exact builds_drop.bind fun _ => (builds_nodeUnless _ (h.node _)).bind fun _ =>
      h.blockItems.bind fun _ => .pure _
  · exact builds_drop.bind fun _ => .pure _
  · exact builds_refuse

theorem flushItems_succ (h : BuildsWithin t fuel) : Builds t (Building.flushItems (fuel + 1)) := by
  rw [Building.flushItems]
  refine builds_peek.bind fun token => ?_
  split
  · exact builds_drop.bind fun _ => (builds_nodeUnless _ (h.node _)).bind fun _ =>
      h.flushItems.bind fun _ => .pure _
  · exact .pure _

theorem blockEntries_succ (h : BuildsWithin t fuel) :
    Builds t (Building.blockEntries (fuel + 1)) := by
  rw [Building.blockEntries]
  refine builds_peek.bind fun token => ?_
  split
  · exact builds_drop.bind fun _ => (builds_nodeUnless _ (h.node _)).bind fun _ =>
      (builds_valueIfAny _ (h.node _)).bind fun _ => h.blockEntries.bind fun _ => .pure _
  · exact builds_drop.bind fun _ => .pure _
  · exact builds_refuse

theorem flowPair_succ (h : BuildsWithin t fuel) : Builds t (Building.flowPair (fuel + 1)) := by
  rw [Building.flowPair]
  exact builds_drop.bind fun _ => builds_addFilled <|
    (builds_nodeUnless _ (h.node _)).bind fun _ =>
      (builds_valueIfAny _ (h.node _)).bind fun _ => .pure _

theorem flowItems_succ (h : BuildsWithin t fuel) (isFirst : Bool) :
    Builds t (Building.flowItems (fuel + 1) isFirst) := by
  rw [Building.flowItems]
  refine (builds_separated isFirst).bind fun token => ?_
  split
  · exact builds_drop.bind fun _ => .pure _
  · exact h.flowPair.bind fun _ => (h.flowItems false).bind fun _ => .pure _
  · exact (h.node _).bind fun _ => (h.flowItems false).bind fun _ => .pure _

theorem flowEntries_succ (h : BuildsWithin t fuel) (isFirst : Bool) :
    Builds t (Building.flowEntries (fuel + 1) isFirst) := by
  rw [Building.flowEntries]
  refine (builds_separated isFirst).bind fun token => ?_
  split
  · exact builds_drop.bind fun _ => .pure _
  · exact builds_drop.bind fun _ => (builds_nodeUnless _ (h.node _)).bind fun _ =>
      (builds_valueIfAny _ (h.node _)).bind fun _ => (h.flowEntries false).bind fun _ => .pure _
  · exact (h.node _).bind fun _ => (builds_add _ _).bind fun _ =>
      (h.flowEntries false).bind fun _ => .pure _

theorem all (t : Text) (fuel : Nat) : BuildsWithin t fuel := by
  induction fuel with
  | zero =>
    constructor <;> intros <;> exact builds_refuse
  | succ fuel ih =>
    exact ⟨ih.node_succ, ih.blockItems_succ, ih.flushItems_succ, ih.blockEntries_succ,
      ih.flowPair_succ, ih.flowItems_succ, ih.flowEntries_succ⟩

end BuildsWithin

/-! ### Documents -/

theorem builds_directives (fuel : Nat) (hasVersion : Bool) (handles : List (Text × Text)) :
    Builds t (directives fuel hasVersion handles) := by
  induction fuel generalizing hasVersion handles with
  | zero => exact builds_refuse
  | succ fuel ih =>
    rw [directives]
    refine builds_peek.bind fun token => ?_
    split
    · refine builds_drop.bind fun _ => ?_
      split
      · exact .ite builds_refuse (ih _ _)
      · exact .ite builds_refuse (ih _ _)
      · exact ih _ _
    · exact .pure _

theorem builds_document (fuel : Nat) : Builds t (document fuel) := by
  have hnode := (BuildsWithin.all t fuel).node .block
  refine builds_peek.bind fun token => .ite ?_ hnode
  refine (builds_directives fuel false []).bind fun handles => ?_
  refine (Stays.of_modify fun _ hb => by exact hb).bind fun _ => builds_peek.bind fun token' => ?_
  split
  · exact builds_drop.bind fun _ => builds_nodeUnless _ hnode
  · exact builds_refuse

theorem builds_finish (fuel : Nat) : Builds t (finish fuel) := by
  induction fuel with
  | zero => exact builds_refuse
  | succ fuel ih =>
    rw [finish]
    refine builds_peek.bind fun token => ?_
    split
    · exact .pure _
    · exact builds_drop.bind fun _ => ih
    · exact (builds_directives fuel false []).bind fun _ => builds_peek.bind fun _ => builds_refuse

theorem builds_onlyDocument (fuel : Nat) : Builds t (onlyDocument fuel) := by
  refine builds_peek.bind fun token => ?_
  split
  · exact .pure _
  · exact (builds_document fuel).bind fun _ => (builds_finish fuel).bind fun _ => .pure _

end Building

/-- A text without a graph has a fault of its own. -/
theorem Graph.isTextFault_of_ofText {t : Text} {e : ReadError} (h : Graph.ofText t = .error e) :
    IsTextFault t e := by
  have hleft : Building.IsLeft t ⟨Token.ofText t, Building.standardHandles, [], #[]⟩ :=
    fun _ => Token.isTextFault_of_mem
  have hends : EndsIn (IsTextFault t) (fun _ => True) (Graph.ofText t) :=
    EndsIn.bind (Building.builds_onlyDocument _ _ hleft) fun _ _ => trivial
  rw [h] at hends
  exact hends

end ZodSchemas.Yaml
