import Mathlib.Data.Set.Finite.List
import Mathlib.Order.RelClasses
import ZodSchemas.Validation.Rules
import ZodSchemas.Proofs.Conversion.Known
import ZodSchemas.Conversion.Unfolding

/-!
# The calls of validation

Validating a value against a node calls for the validation of parts of the
value, or of the same value against a part of the node or against the body
behind a reference. Where no reference leads back to itself on one level of the
value, every chain of calls ends: a call either goes into the value, or follows
a reference that leads to fewer others, or goes into the node.
-/

namespace ZodSchemas

namespace Node

mutual

/-- The references of a node that are followed for the value that the node is validated against:
those outside of properties and elements. -/
def unguardedRefs : Node → List Ref
  | .union options => unguardedOptionRefs options
  | .nullable inner => inner.unguardedRefs
  | .optional inner => inner.unguardedRefs
  | .lazy ref => [ref]
  | _ => []

/-- The references of options that are followed for the same value. -/
def unguardedOptionRefs : List Node → List Ref
  | [] => []
  | option :: rest => option.unguardedRefs ++ unguardedOptionRefs rest

end

/-- The references of an option are among those of all. -/
theorem mem_unguardedOptionRefs {options : List Node} {ref : Ref} :
    ref ∈ unguardedOptionRefs options ↔ ∃ option ∈ options, ref ∈ option.unguardedRefs := by
  induction options with
  | nil => simp [unguardedOptionRefs]
  | cons option rest ih => simp [unguardedOptionRefs, ih]

mutual

/-- The references that are followed for the same value are references of the node. -/
theorem refs_of_unguardedRefs : ∀ (node : Node) (ref : Ref), ref ∈ node.unguardedRefs →
    ref ∈ node.refs
  | .union options, ref, h => optionRefs_of_unguardedRefs options ref h
  | .nullable inner, ref, h => refs_of_unguardedRefs inner ref h
  | .optional inner, ref, h => refs_of_unguardedRefs inner ref h
  | .lazy _, _, h => h
  | .string _, _, h | .number, _, h | .boolean, _, h | .object _ _, _, h | .array _, _, h
  | .enum _, _, h | .literal _, _, h | .never, _, h | .unknown, _, h | .plain, _, h => by
    simp [unguardedRefs] at h

/-- The references of options that are followed for the same value are references of them. -/
theorem optionRefs_of_unguardedRefs : ∀ (options : List Node) (ref : Ref),
    ref ∈ unguardedOptionRefs options → ref ∈ optionRefs options
  | [], _, h => h
  | option :: rest, ref, h =>
    List.mem_append.mpr ((List.mem_append.mp h).imp (refs_of_unguardedRefs option ref)
      (optionRefs_of_unguardedRefs rest ref))

end

end Node

/-- A reference leads to those that its body follows for the same value. -/
def Registry.LeadsTo (registry : Registry) (ref next : Ref) : Prop :=
  ∃ body, registry.body ref = .ok body ∧ next ∈ body.unguardedRefs

/-- No reference leads back to itself without a property or an element in between. -/
def Registry.IsAcyclic (registry : Registry) : Prop :=
  ∀ ref, ¬ Relation.TransGen registry.LeadsTo ref ref

namespace Validation

/-- What validation is asked about: a node, and a value or the absence of one. -/
abbrev Call := Node × Option Value

/-- The first call is about what is inside the value of the second. -/
inductive Enters : Call → Call → Prop where
  /-- A property of a mapping, which may be absent. -/
  | property {nodes : Entries Node} {required : List Key} {v : Value} {entries : Entries Value}
      {key : Key} {node : Node} (mapping : v.entries? = some entries)
      (declared : (key, node) ∈ nodes) :
      Enters (node, Entries.find? key entries) (.object nodes required, some v)
  /-- An element of a list. -/
  | element {element : Node} {v w : Value} {items : List Value}
      (listed : listItems? v = some items) (member : w ∈ items) :
      Enters (element, some w) (.array element, some v)

/-- The first call is about a part of the node of the second, and the same value. -/
inductive Unwraps : Call → Call → Prop where
  /-- An option of a union. -/
  | option {options : List Node} {option : Node} {v : Value} (member : option ∈ options) :
      Unwraps (option, some v) (.union options, some v)
  /-- The node of a value that is not null. -/
  | nullable {inner : Node} {v : Value} (present : v ≠ .null) :
      Unwraps (inner, some v) (.nullable inner, some v)
  /-- The node of a value that is not absent. -/
  | optional {inner : Node} {v : Value} : Unwraps (inner, some v) (.optional inner, some v)

/-- The first call may be made to answer the second. -/
inductive Calls (registry : Registry) : Call → Call → Prop where
  /-- Into the value. -/
  | enter {inner outer : Call} (h : Enters inner outer) : Calls registry inner outer
  /-- Into the node. -/
  | unwrap {inner outer : Call} (h : Unwraps inner outer) : Calls registry inner outer
  /-- To the body behind a reference. -/
  | follow {ref : Ref} {body : Node} {value : Option Value} (found : registry.body ref = .ok body) :
      Calls registry (body, value) (.lazy ref, value)

/-- The items of a list are parts of it. -/
theorem mem_parts_of_listItems? {v w : Value} {items : List Value} (h : listItems? v = some items)
    (hw : w ∈ items) : w ∈ v.parts := by
  unfold listItems? at h
  split at h
  · next hs =>
    obtain rfl := Option.some.inj h
    simpa [Value.parts, hs] using hw
  · next hs =>
    obtain rfl := Option.some.inj h
    simpa [Value.parts, hs] using hw
  · simp at h

/-- What is found under a key of a mapping is a part of it. -/
theorem mem_parts_of_find? {v w : Value} {entries : Entries Value} {key : Key}
    (h : v.entries? = some entries) (hw : Entries.find? key entries = some w) : w ∈ v.parts := by
  obtain ⟨k, -, hm⟩ := Entries.mem_of_find? hw
  exact Value.mem_parts_of_entries? h hm

/-- What a call is made about is not inside itself when the value of the other one is not. -/
theorem isFinite_of_calls {registry : Registry} {call callee : Call}
    (h : Calls registry callee call) (hv : ∀ v ∈ call.2, v.isFinite = true) :
    ∀ v ∈ callee.2, v.isFinite = true := by
  cases h with
  | follow _ => exact hv
  | unwrap h => cases h <;> exact hv
  | enter h =>
    cases h with
    | @property _ _ v entries _ _ hm _ =>
      exact fun w hw => Value.isFinite_of_mem_parts (hv v rfl) (mem_parts_of_find? hm hw)
    | @element _ v w items hm hw =>
      rintro u ⟨⟩
      exact Value.isFinite_of_mem_parts (hv v rfl) (mem_parts_of_listItems? hm hw)

end Validation

namespace Registry

variable {registry : Registry}

/-- Every reference that can be met from given entries is one of theirs. -/
theorem ofEntries_isClosed (bodies : List (Ref × Node)) (entries : Entries Node) :
    (ofEntries bodies entries).IsClosed := by
  have listed : ∀ fuel ref body, bodyByName bodies entries fuel ref = .ok body →
      ∀ next ∈ body.refs, next ∈ bodies.flatMap (·.2.refs) ∨ next ∈ Node.propertyRefs entries := by
    intro fuel
    induction fuel with
    | zero => simp [bodyByName]
    | succ fuel ih =>
      intro ref body h next hn
      rw [bodyByName] at h
      split at h
      · next node hl =>
        obtain rfl := Except.ok.inj h
        obtain ⟨front, back, rfl, -⟩ := List.lookup_eq_some_iff.mp hl
        exact .inl (List.mem_flatMap.mpr ⟨(ref, node), by simp, hn⟩)
      · split at h
        · obtain rfl := Except.ok.inj h
          simp [Node.refs] at hn
        · exact ih _ _ h next hn
        · next hf =>
          obtain rfl := Except.ok.inj h
          obtain ⟨k, -, hm⟩ := Entries.mem_of_find? hf
          exact .inr (Node.mem_propertyRefs.mpr ⟨_, hm, hn⟩)
  intro ref body h next hn
  refine List.mem_eraseDups.mpr ?_
  rcases listed _ ref body h next hn with hm | hm
  · exact List.mem_append_left _ (List.mem_append_right _ hm)
  · exact List.mem_append_right _ hm

/-- References that lead to references that lead on to none do not lead back. -/
theorem isAcyclic_of_ends
    (h : ∀ ref next, registry.LeadsTo ref next → ∀ other, ¬ registry.LeadsTo next other) :
    registry.IsAcyclic := by
  intro ref hr
  obtain ⟨next, hfirst, -⟩ := Relation.TransGen.head'_iff.mp hr
  obtain ⟨last, -, hlast⟩ := Relation.TransGen.tail'_iff.mp hr
  exact h last ref hlast next hfirst

/-- References whose bodies lead on to none do not lead back. -/
theorem isAcyclic_of_bodies
    (h : ∀ ref body, registry.body ref = .ok body → body.unguardedRefs = []) :
    registry.IsAcyclic := by
  refine isAcyclic_of_ends fun ref next ⟨body, hb, hm⟩ => ?_
  simp [h ref body hb] at hm

/-- Without entries every reference stands for anything. -/
theorem isAcyclic_ofEntries_nil : (ofEntries [] []).IsAcyclic := by
  refine isAcyclic_of_bodies fun ref body hb => ?_
  obtain rfl := Except.ok.inj hb
  rfl

/-- Where no reference leads back to itself, following references on one level ends. -/
theorem IsAcyclic.acc (ha : registry.IsAcyclic) (hc : registry.IsClosed) (ref : Ref) :
    Acc (fun next ref => registry.LeadsTo ref next) ref := by
  -- Among the references of the registry, which are finitely many, leading on is well founded.
  let Inside := {r : Ref // r ∈ registry.refs}
  have hwf : WellFounded fun next ref : Inside =>
      Relation.TransGen registry.LeadsTo ref.val next.val := by
    have : Finite Inside := List.finite_toSet registry.refs
    have : IsTrans Inside fun next ref => Relation.TransGen registry.LeadsTo ref.val next.val :=
      ⟨fun _ _ _ hab hbc => hbc.trans hab⟩
    have : Std.Irrefl fun next ref : Inside =>
        Relation.TransGen registry.LeadsTo ref.val next.val := ⟨fun ref => ha ref.val⟩
    exact Finite.wellFounded_of_trans_of_irrefl _
  have inside : ∀ r : Inside, Acc (fun next ref => registry.LeadsTo ref next) r.val := by
    intro r
    induction r using hwf.induction with
    | h r ih =>
      refine ⟨_, fun next hn => ?_⟩
      obtain ⟨body, hb, hm⟩ := id hn
      have hi : next ∈ registry.refs := hc r.val body hb next (Node.refs_of_unguardedRefs _ _ hm)
      exact ih ⟨next, hi⟩ (.single hn)
  refine ⟨_, fun next ⟨body, hb, hm⟩ => ?_⟩
  exact inside ⟨next, hc ref body hb next (Node.refs_of_unguardedRefs _ _ hm)⟩

end Registry

namespace Validation

variable {registry : Registry}

/-- The calls about what is inside a value end. -/
def EndsInside (registry : Registry) (value : Option Value) : Prop :=
  ∀ v ∈ value, ∀ node, Acc (Calls registry) (node, none) ∧
    ∀ w ∈ v.parts, Acc (Calls registry) (node, some w)

mutual

/-- The calls about one value end when those about its parts do, and those about the references
that are followed for it. -/
theorem acc_of_refs {value : Option Value} (hparts : EndsInside registry value) :
    ∀ node : Node, (∀ ref ∈ node.unguardedRefs, Acc (Calls registry) (.lazy ref, value)) →
      Acc (Calls registry) (node, value)
  | .union options, h => by
    refine ⟨_, fun call hcall => ?_⟩
    rcases hcall with ⟨⟨⟩⟩ | ⟨⟨hm⟩⟩
    exact acc_of_optionRefs hparts options h _ hm
  | .nullable inner, h => by
    refine ⟨_, fun call hcall => ?_⟩
    rcases hcall with ⟨⟨⟩⟩ | ⟨⟨⟩⟩
    exact acc_of_refs hparts inner h
  | .optional inner, h => by
    refine ⟨_, fun call hcall => ?_⟩
    rcases hcall with ⟨⟨⟩⟩ | ⟨⟨⟩⟩
    exact acc_of_refs hparts inner h
  | .lazy ref, h => h ref (by simp [Node.unguardedRefs])
  | .object nodes required, _ => by
    refine ⟨_, fun call hcall => ?_⟩
    cases hcall with
    | unwrap h => cases h
    | enter h =>
      cases h with
      | @property _ _ v entries key node hv hm =>
        cases hf : Entries.find? key entries with
        | none => exact (hparts v rfl node).1
        | some w => exact (hparts v rfl node).2 w (mem_parts_of_find? hv hf)
  | .array element, _ => by
    refine ⟨_, fun call hcall => ?_⟩
    cases hcall with
    | unwrap h => cases h
    | enter h =>
      cases h with
      | @element _ v w items hv hm =>
        exact (hparts v rfl element).2 w (mem_parts_of_listItems? hv hm)
  | .string _, _ | .number, _ | .boolean, _ | .enum _, _ | .literal _, _ | .never, _
  | .unknown, _ | .plain, _ => ⟨_, fun _ hcall => by rcases hcall with ⟨⟨⟩⟩ | ⟨⟨⟩⟩⟩

/-- The calls about the options of a union end. -/
theorem acc_of_optionRefs {value : Option Value} (hparts : EndsInside registry value) :
    ∀ options : List Node,
      (∀ ref ∈ Node.unguardedOptionRefs options, Acc (Calls registry) (.lazy ref, value)) →
      ∀ option ∈ options, Acc (Calls registry) (option, value)
  | [], _, _, hm => by simp at hm
  | first :: rest, h, option, hm => by
    rcases List.mem_cons.mp hm with he | hm
    · rw [he]
      exact acc_of_refs hparts first fun ref hr => h ref (List.mem_append_left _ hr)
    · exact acc_of_optionRefs hparts rest (fun ref hr => h ref (List.mem_append_right _ hr))
        option hm

end

/-- The calls about one value end when those about its parts do and no reference leads back to
itself. -/
theorem acc_of_parts {value : Option Value} (ha : registry.IsAcyclic) (hc : registry.IsClosed)
    (hparts : EndsInside registry value) (node : Node) : Acc (Calls registry) (node, value) := by
  refine acc_of_refs hparts node fun ref hr => ?_
  clear hr
  induction ha.acc hc ref with
  | intro ref _ ih =>
    refine ⟨_, fun call hcall => ?_⟩
    cases hcall with
    | enter h => cases h
    | unwrap h => cases h
    | @follow _ body _ hb =>
      exact acc_of_refs hparts body fun next hn => ih next ⟨body, hb, hn⟩

/-- Every chain of calls ends, where no reference leads back to itself on one level of a value
that is not inside itself. -/
theorem acc_calls (ha : registry.IsAcyclic) (hc : registry.IsClosed) (node : Node)
    {value : Option Value} (hv : ∀ v ∈ value, v.isFinite = true) :
    Acc (Calls registry) (node, value) := by
  have absent : ∀ node, Acc (Calls registry) (node, none) :=
    acc_of_parts ha hc fun v h => by simp at h
  have present : ∀ n (v : Value), v.fits n = true →
      ∀ node, Acc (Calls registry) (node, some v) := by
    intro n
    induction n with
    | zero =>
      intro v hf
      have he : v.parts = [] := by simpa [Value.fits] using hf
      refine acc_of_parts ha hc fun u hu node => ⟨absent node, ?_⟩
      obtain rfl := Option.some.inj hu
      simp [he]
    | succ n ih =>
      intro v hf
      refine acc_of_parts ha hc fun u hu node => ⟨absent node, fun w hw => ?_⟩
      obtain rfl := Option.some.inj hu
      exact ih w (Value.fits_succ.mp hf w hw) node
  cases value with
  | none => exact absent node
  | some v => exact present v.depth v (hv v rfl) node

end Validation

end ZodSchemas
