import Mathlib.Data.List.Perm.Subperm
import ZodSchemas.Proofs.Validation.Rule

/-!
# Verdicts of the recursion without bounds

The rule of a call decides it from verdicts about the calls that it makes. A
verdict that finitely many uses of the rule lead to is what validation comes to
when nothing bounds it, whatever cycles the references form. The main statement
is that validation ends with exactly these verdicts. So where it ends, it is the
recursion that the rule describes, also where other calls do not end. What
carries the proof is that a call that ends never makes itself again: the verdict
of the inner one is already that of the outer one.
-/

namespace ZodSchemas

namespace Traced

variable {ω ε α β : Type}

/-- The second computation ends with every value that the first ends with. -/
def Approximates (x y : Traced ω ε α) : Prop := ∀ a, x.outcome = .ok a → y.outcome = .ok a

/-- A computation approximates itself. -/
theorem Approximates.refl (x : Traced ω ε α) : Approximates x x := fun _ h => h

/-- A computation that ends with an error approximates every other one. -/
theorem approximates_fail (e : ε) (y : Traced ω ε α) : Approximates (Traced.fail e) y := by
  intro a h
  simp at h

/-- Composed computations approximate each other when their parts do. -/
theorem Approximates.bind {x y : Traced ω ε α} {f g : α → Traced ω ε β} (h : Approximates x y)
    (hf : ∀ a, Approximates (f a) (g a)) : Approximates (x >>= f) (y >>= g) := by
  intro b hb
  obtain ⟨a, ha, hb⟩ := bind_eq_ok.mp hb
  exact bind_eq_ok.mpr ⟨a, h a ha, hf a b hb⟩

end Traced

/-- A list without the repetitions of its items has none. -/
theorem nodup_eraseDups {α : Type} [DecidableEq α] (items : List α) : items.eraseDups.Nodup := by
  induction hn : items.length using Nat.strong_induction_on generalizing items with
  | h n ih =>
    cases items with
    | nil => simp
    | cons a rest =>
      have hl : (rest.filter fun b => !b == a).length < n := by
        have := List.length_filter_le (fun b => !b == a) rest
        simp only [List.length_cons] at hn
        omega
      rw [List.eraseDups_cons, List.nodup_cons]
      refine ⟨?_, ih _ hl _ rfl⟩
      simp [List.mem_eraseDups]

/-- A list without its repetitions is part of another one when its items are. -/
theorem subperm_eraseDups {α : Type} [DecidableEq α] {items others : List α}
    (h : ∀ a ∈ items, a ∈ others) : items.eraseDups.Subperm others.eraseDups :=
  (nodup_eraseDups items).subperm fun a ha =>
    List.mem_eraseDups.mpr (h a (List.mem_eraseDups.mp ha))

namespace Validation

variable {registry : Registry}

/-- The verdicts that the rule gives from such verdicts about the calls that it makes. -/
inductive Yields (registry : Registry) : Node → Option Value → Path → Verdict → Prop where
  /-- The rule decides a call from what is known about the calls that it makes. -/
  | rule {node : Node} {value : Option Value} {path : Path} {verdict : Verdict} (judge : Judge)
      (known : ∀ call, Calls registry call (node, value) → ∀ path verdict,
        (judge call.1 call.2 path).outcome = .ok verdict →
          Yields registry call.1 call.2 path verdict)
      (decided : (rule registry judge node value path).outcome = .ok verdict) :
      Yields registry node value path verdict

section Steps

variable {enter enter' unwrap unwrap' : Judge}
  {follow follow' : Ref → Option Value → Path → Judging}

/-- Properties are approximated by the calls that enter the mapping. -/
theorem properties_approximates {entries : Entries Value} {path : Path} {nodes : Entries Node}
    (h : ∀ e ∈ nodes, ∀ path, Traced.Approximates (enter e.2 (Entries.find? e.1 entries) path)
      (enter' e.2 (Entries.find? e.1 entries) path)) :
    Traced.Approximates (properties enter entries path nodes)
      (properties enter' entries path nodes) := by
  induction nodes with
  | nil => exact .refl _
  | cons e rest ih =>
    rw [properties, properties]
    refine (h e (by simp) _).bind fun verdict => ?_
    refine (ih fun e he => h e (List.mem_cons_of_mem _ he)).bind fun others => ?_
    exact .refl _

/-- Elements are approximated by the calls that enter the list. -/
theorem elements_approximates {element : Node} {path : Path} {index : Nat} {items : List Value}
    (h : ∀ w ∈ items, ∀ path, Traced.Approximates (enter element (some w) path)
      (enter' element (some w) path)) :
    Traced.Approximates (elements enter element path index items)
      (elements enter' element path index items) := by
  induction items generalizing index with
  | nil => exact .refl _
  | cons w rest ih =>
    rw [elements, elements]
    refine (h w (by simp) _).bind fun verdict => ?_
    refine (ih fun w hw => h w (List.mem_cons_of_mem _ hw)).bind fun others => ?_
    exact .refl _

/-- Options are approximated by the calls that unwrap the union. -/
theorem firstVerdict_approximates {options : List Node} {v : Value} {path : Path}
    (h : ∀ option ∈ options, Traced.Approximates (unwrap option (some v) path)
      (unwrap' option (some v) path)) :
    Traced.Approximates (firstVerdict unwrap options v path)
      (firstVerdict unwrap' options v path) := by
  induction options with
  | nil => exact .refl _
  | cons option rest ih =>
    rw [firstVerdict, firstVerdict]
    refine (h option (by simp)).bind fun verdict => ?_
    split
    · exact .refl _
    · exact ih fun o ho => h o (List.mem_cons_of_mem _ ho)

/-- What the rule decides is approximated by the calls that it makes. -/
theorem ruleOf_approximates {node : Node} {value : Option Value} {path : Path}
    (he : ∀ call, Enters call (node, value) → ∀ path,
      Traced.Approximates (enter call.1 call.2 path) (enter' call.1 call.2 path))
    (hu : ∀ call, Unwraps call (node, value) →
      Traced.Approximates (unwrap call.1 call.2 path) (unwrap' call.1 call.2 path))
    (hf : ∀ ref, node = .lazy ref →
      Traced.Approximates (follow ref value path) (follow' ref value path)) :
    Traced.Approximates (ruleOf enter unwrap follow node value path)
      (ruleOf enter' unwrap' follow' node value path) := by
  cases value with
  | none =>
    cases node with
    | lazy ref => exact hf ref rfl
    | _ => exact .refl _
  | some v =>
    cases node with
    | lazy ref => exact hf ref rfl
    | optional inner => exact hu (inner, some v) .optional
    | nullable inner =>
      by_cases hn : v = .null
      · rw [hn]
        exact .refl _
      · rw [ruleOf_nullable hn, ruleOf_nullable hn]
        exact hu (inner, some v) (.nullable hn)
    | union options =>
      exact firstVerdict_approximates fun o ho => hu (o, some v) (.option ho)
    | object nodes required =>
      rw [ruleOf, ruleOf]
      cases hv : v.entries? with
      | none => exact .refl _
      | some entries =>
        refine Traced.Approximates.bind ?_ fun _ => .refl _
        exact properties_approximates fun e hm =>
          he (e.2, Entries.find? e.1 entries) (.property hv hm)
    | array element =>
      rw [ruleOf, ruleOf]
      cases hv : listItems? v with
      | none => exact .refl _
      | some items =>
        refine Traced.Approximates.bind ?_ fun _ => .refl _
        exact elements_approximates fun w hm => he (element, some w) (.element hv hm)
    | _ => exact .refl _

/-- What the rule decides is approximated by the calls that it makes, whatever their kind. -/
theorem rule_approximates {judge judge' : Judge} {node : Node} {value : Option Value} {path : Path}
    (h : ∀ call, Calls registry call (node, value) → ∀ path,
      Traced.Approximates (judge call.1 call.2 path) (judge' call.1 call.2 path)) :
    Traced.Approximates (rule registry judge node value path)
      (rule registry judge' node value path) := by
  refine ruleOf_approximates (fun call he => h call (.enter he))
    (fun call hu => h call (.unwrap hu) path) (fun ref hn verdict hj => ?_)
  subst hn
  obtain ⟨body, hb, hj⟩ := Traced.bind_eq_ok.mp hj
  have hcall : Calls registry (body, value) (.lazy ref, value) :=
    .follow (Registry.resolve_eq_ok.mp hb)
  exact Traced.bind_eq_ok.mpr ⟨body, hb, h _ hcall path verdict hj⟩

/-- The node of a call that unwraps another one is smaller. -/
theorem Unwraps.sizeOf_lt {inner outer : Call} (h : Unwraps inner outer) :
    sizeOf inner.1 < sizeOf outer.1 := by
  cases h with
  | option hm =>
    have := List.sizeOf_lt_of_mem hm
    simp only [Node.union.sizeOf_spec]
    omega
  | nullable _ => simp
  | optional => simp

/-- A call that enters a value unwraps no node. -/
theorem Enters.not_unwraps {inner other outer : Call} (h : Enters inner outer) :
    ¬ Unwraps other outer := by
  rintro ⟨⟩ <;> cases h

/-- Judgements that are given by the rule approximate each other when what they are given from
does, apart from the nodes that they unwrap. -/
theorem approximates_of_rule {judge judge' : Judge} {value : Option Value} {path : Path}
    (hj : ∀ node, judge node value path = ruleOf enter judge follow node value path)
    (hj' : ∀ node, judge' node value path = ruleOf enter' judge' follow' node value path)
    (he : ∀ node call, Enters call (node, value) → ∀ path,
      Traced.Approximates (enter call.1 call.2 path) (enter' call.1 call.2 path))
    (hf : ∀ ref, Traced.Approximates (follow ref value path) (follow' ref value path))
    (node : Node) : Traced.Approximates (judge node value path) (judge' node value path) := by
  induction hs : sizeOf node using Nat.strong_induction_on generalizing node with
  | h n ih =>
    rw [hj, hj']
    refine ruleOf_approximates (he node) (fun call hu => ?_) fun ref _ => hf ref
    have hsize := hu.sizeOf_lt
    obtain ⟨inner, v⟩ := call
    have hv : v = value := by cases hu <;> rfl
    subst hv
    exact ih (sizeOf inner) (hs ▸ hsize) inner rfl

end Steps

section Levels

variable {descend descend' : Judge} {fuel fuel' : Nat} {pending pending' : List Ref}
  {value : Option Value} {path : Path}

/-- A reference is judged on a level when it is still to be followed and its body is judged. -/
theorem level_lazy_eq_ok {ref : Ref} {verdict : Verdict} :
    (level registry descend fuel pending (.lazy ref) value path).outcome = .ok verdict ↔
      ref ∈ pending ∧ ∃ rest body, fuel = rest + 1 ∧ registry.body ref = .ok body ∧
        (level registry descend rest (pending.erase ref) body value path).outcome =
          .ok verdict := by
  cases fuel with
  | zero => simp [level, step]
  | succ fuel =>
    by_cases hm : ref ∈ pending
    · rw [level_lazy value path hm, Traced.bind_eq_ok]
      simp [hm, Registry.resolve_eq_ok]
    · simp [level, step, hm]

/-- A level on which more references may be followed judges whatever one with fewer does. The
number of those that may be followed is no further bound. -/
theorem level_approximates
    (hd : ∀ node call, Enters call (node, value) → ∀ path,
      Traced.Approximates (descend call.1 call.2 path) (descend' call.1 call.2 path))
    (hp : pending.Subperm pending') (hl : pending'.length ≤ fuel') (node : Node) :
    Traced.Approximates (level registry descend fuel pending node value path)
      (level registry descend' fuel' pending' node value path) := by
  induction fuel generalizing fuel' pending pending' node with
  | zero =>
    refine approximates_of_rule (fun node => level_eq node value path)
      (fun node => level_eq node value path) hd (fun ref verdict h => ?_) node
    simp [level_lazy_eq_ok] at h
  | succ fuel ih =>
    refine approximates_of_rule (fun node => level_eq node value path)
      (fun node => level_eq node value path) hd (fun ref verdict h => ?_) node
    obtain ⟨hm, rest, body, hrest, hb, h⟩ := level_lazy_eq_ok.mp h
    obtain rfl : fuel = rest := by omega
    have hm' : ref ∈ pending' := hp.subset hm
    have hpos := List.length_pos_of_mem hm'
    refine level_lazy_eq_ok.mpr ⟨hm', fuel' - 1, body, by omega, hb, ?_⟩
    refine ih (hp.erase ref) ?_ body verdict h
    rw [List.length_erase_of_mem hm']
    omega

/-- The body of a reference is judged without following the reference again: where it is followed
nevertheless, the verdict about its body is there already. -/
theorem level_erase {ref : Ref} {body : Node} (hb : registry.body ref = .ok body)
    (hl : (pending.erase ref).length ≤ fuel') {verdict : Verdict}
    (h : (level registry descend fuel pending body value path).outcome = .ok verdict) :
    (level registry descend fuel' (pending.erase ref) body value path).outcome = .ok verdict := by
  have descends : ∀ node call, Enters call (node, value) → ∀ path,
      Traced.Approximates (descend call.1 call.2 path) (descend call.1 call.2 path) :=
    fun _ _ _ _ => .refl _
  by_cases hex : ∃ other, (level registry descend fuel' (pending.erase ref) body value path).outcome
      = .ok other
  · obtain ⟨other, ho⟩ := hex
    have hm := level_approximates descends List.erase_sublist.subperm
      (Nat.le_refl pending.length) body other ho
    have hv := level_approximates descends (List.Subperm.refl pending)
      (Nat.le_refl pending.length) body verdict h
    obtain rfl : other = verdict := by simpa [hm] using hv
    exact ho
  · -- The reference is never followed, since its body is judged by nothing that remains then.
    have avoids : ∀ (fuel : Nat) (rest : List Ref), rest.Subperm pending → ∀ node,
        Traced.Approximates (level registry descend fuel rest node value path)
          (level registry descend fuel (rest.erase ref) node value path) := by
      intro fuel
      induction fuel with
      | zero =>
        intro rest _ node
        refine approximates_of_rule (fun node => level_eq node value path)
          (fun node => level_eq node value path) descends (fun next verdict h => ?_) node
        simp [level_lazy_eq_ok] at h
      | succ fuel ih =>
        intro rest hr node
        refine approximates_of_rule (fun node => level_eq node value path)
          (fun node => level_eq node value path) descends (fun next other h => ?_) node
        obtain ⟨hm, left, inner, hleft, hi, h⟩ := level_lazy_eq_ok.mp h
        obtain rfl : fuel = left := by omega
        by_cases hn : next = ref
        · subst hn
          obtain rfl : body = inner := by simpa [hb] using hi
          exact absurd ⟨other, level_approximates descends (hr.erase next) hl body other h⟩ hex
        · refine level_lazy_eq_ok.mpr ⟨(List.mem_erase_of_ne hn).mpr hm, fuel, inner, rfl, hi, ?_⟩
          rw [List.erase_comm]
          exact ih (rest.erase next) (List.erase_sublist.subperm.trans hr) inner other h
    have ha := avoids fuel pending (List.Subperm.refl _) body verdict h
    exact level_approximates descends (List.Subperm.refl _) hl body verdict ha

end Levels

section Depths

/-- A value that is admitted has parts that are admitted one level deeper. -/
theorem AdmitsValue.of_enters {depth : Nat} {call : Call} {node : Node} {value : Option Value}
    (h : AdmitsValue depth value) (he : Enters call (node, value)) :
    ∃ d, depth = d + 1 ∧ AdmitsValue d call.2 := by
  cases he with
  | @property _ _ v entries key _ hv _ =>
    obtain ⟨d, rfl, -⟩ := h v rfl
    exact ⟨d, rfl, fun w hw => h.of_mem_parts (mem_parts_of_find? hv hw) w rfl⟩
  | @element _ v w items hv hm =>
    obtain ⟨d, rfl, -⟩ := h v rfl
    exact ⟨d, rfl, h.of_mem_parts (mem_parts_of_listItems? hv hm)⟩

/-- Validation that counts more references and goes as deep as the value does judges whatever other
validation does. -/
theorem within_approximates {refs refs' : List Ref} {depth depth' : Nat} {value : Option Value}
    (hr : refs.Subperm refs') (hv : AdmitsValue depth' value) (node : Node) (path : Path) :
    Traced.Approximates (within registry refs depth node value path)
      (within registry refs' depth' node value path) := by
  induction depth generalizing depth' value node path with
  | zero =>
    rw [within_eq, within_eq]
    exact level_approximates (fun _ _ _ _ => Traced.approximates_fail _ _) hr (Nat.le_refl _) node
  | succ depth ih =>
    rw [within_eq, within_eq]
    refine level_approximates (fun node call he path => ?_) hr (Nat.le_refl _) node
    obtain ⟨d, rfl, hd⟩ := hv.of_enters he
    exact ih hd call.1 path

/-- What is judged below a level is judged when more references are counted and the value is not
too deep. -/
theorem descendWithin_approximates {refs refs' : List Ref} {depth depth' : Nat} {call : Call}
    {node : Node} {value : Option Value} (hr : refs.Subperm refs') (hv : AdmitsValue depth' value)
    (he : Enters call (node, value)) (path : Path) :
    Traced.Approximates (descendWithin registry refs depth call.1 call.2 path)
      (descendWithin registry refs' depth' call.1 call.2 path) := by
  cases depth with
  | zero => exact Traced.approximates_fail _ _
  | succ depth =>
    obtain ⟨d, rfl, hd⟩ := hv.of_enters he
    exact within_approximates hr hd call.1 path

end Depths

/-- The references that validation counts from the start. -/
def countedRefs (registry : Registry) (node : Node) : List Ref :=
  (registry.refs ++ node.refs).eraseDups

/-- What the rule decides from what validation ends with, validation ends with. -/
theorem rule_approximates_validateAt (hc : registry.IsClosed) (node : Node) {value : Option Value}
    (hv : ∀ v ∈ value, v.isFinite = true) (path : Path) :
    Traced.Approximates (rule registry (validateAt registry) node value path)
      (validateAt registry node value path) := by
  have hadmits := admitsValue_depthOf hv
  have counted : ∀ other : Node, (∀ ref ∈ other.refs, ref ∈ registry.refs ∨ ref ∈ node.refs) →
      (countedRefs registry other).Subperm (countedRefs registry node) := by
    intro other h
    refine subperm_eraseDups fun ref hm => ?_
    rcases List.mem_append.mp hm with hm | hm
    · exact List.mem_append_left _ hm
    · exact List.mem_append.mpr (h ref hm)
  rw [validateAt, within_eq, level_eq]
  refine ruleOf_approximates (fun call he path => ?_) (fun call hu => ?_) fun ref hn => ?_
  · obtain ⟨d, hd, hcall⟩ := hadmits.of_enters he
    rw [hd, descendWithin]
    refine within_approximates (counted call.1 fun ref hm => .inr ?_) hcall call.1 path
    cases he with
    | property _ hm' => exact Node.mem_propertyRefs.mpr ⟨_, hm', hm⟩
    | element _ _ => exact hm
  · obtain ⟨inner, v⟩ := call
    have hrefs : ∀ ref ∈ inner.refs, ref ∈ registry.refs ∨ ref ∈ node.refs := by
      intro ref hm
      refine .inr ?_
      cases hu with
      | option ho => exact Node.mem_optionRefs.mpr ⟨_, ho, hm⟩
      | nullable _ => exact hm
      | optional => exact hm
    obtain rfl : v = value := by cases hu <;> rfl
    rw [validateAt, within_eq]
    refine level_approximates (fun node call he path => ?_) (counted inner hrefs)
      (Nat.le_refl _) inner
    exact descendWithin_approximates (counted inner hrefs) hadmits he path
  · subst hn
    intro verdict h
    obtain ⟨body, hb, h⟩ := Traced.bind_eq_ok.mp h
    have hbody := Registry.resolve_eq_ok.mp hb
    have hrefs := counted body fun next hm => .inl (hc ref body hbody next hm)
    have hm : ref ∈ countedRefs registry (.lazy ref) := by simp [countedRefs, Node.refs]
    have hpos := List.length_pos_of_mem hm
    rw [validateAt, within_eq] at h
    refine level_lazy_eq_ok.mpr ⟨hm, (countedRefs registry (.lazy ref)).length - 1, body,
      (Nat.succ_pred_eq_of_pos hpos).symm, hbody, ?_⟩
    have hlevel := level_approximates (fun node call he path =>
      descendWithin_approximates hrefs hadmits he path) hrefs (Nat.le_refl _) body verdict h
    exact level_erase hbody (Nat.le_of_eq (List.length_erase_of_mem hm)) hlevel

/-- A level ends with verdicts that the rule leads to when what is below does. -/
theorem yields_of_level {descend : Judge}
    (hd : ∀ node value path verdict, (descend node value path).outcome = .ok verdict →
      Yields registry node value path verdict)
    {fuel : Nat} {pending : List Ref} {node : Node} {value : Option Value} {path : Path}
    {verdict : Verdict}
    (h : (level registry descend fuel pending node value path).outcome = .ok verdict) :
    Yields registry node value path verdict := by
  classical
  -- The references that may still be followed get fewer, and in between the node gets smaller.
  induction fuel using Nat.strong_induction_on generalizing pending node value path verdict with
  | h fuel ihf =>
    induction hs : sizeOf node using Nat.strong_induction_on generalizing node path verdict with
    | h n ihn =>
      by_cases hlazy : ∃ ref, node = .lazy ref
      · obtain ⟨ref, rfl⟩ := hlazy
        obtain ⟨-, rest, body, hrest, hb, h⟩ := level_lazy_eq_ok.mp h
        refine .rule (level registry descend rest (pending.erase ref))
          (fun call _ path verdict hv => ihf rest (by omega) hv) ?_
        exact Traced.bind_eq_ok.mpr ⟨body, Registry.resolve_eq_ok.mpr hb, h⟩
      · let judge : Judge := fun inner v path =>
          if Enters (inner, v) (node, value) then descend inner v path
          else level registry descend fuel pending inner v path
        refine .rule judge (fun call hcall path verdict hv => ?_) ?_
        · cases hcall with
          | enter he => exact hd _ _ _ _ (by simpa [judge, he] using hv)
          | unwrap hu =>
            obtain ⟨inner, v⟩ := call
            have hn : ¬ Enters (inner, v) (node, value) := fun he => he.not_unwraps hu
            obtain rfl : v = value := by cases hu <;> rfl
            exact ihn (sizeOf inner) (hs ▸ hu.sizeOf_lt) (by simpa [judge, hn] using hv) rfl
          | follow hb => exact absurd ⟨_, rfl⟩ hlazy
        · rw [level_eq] at h
          refine ruleOf_approximates (fun call he path verdict hv => ?_)
            (fun call hu verdict hv => ?_) (fun ref hn => absurd ⟨ref, hn⟩ hlazy) verdict h
          · simpa [judge, he] using hv
          · have hn : ¬ Enters call (node, value) := fun he => he.not_unwraps hu
            simpa [judge, hn] using hv

/-- Validation within bounds ends with verdicts that the rule leads to. -/
theorem yields_of_within {refs : List Ref} {depth : Nat} {node : Node} {value : Option Value}
    {path : Path} {verdict : Verdict}
    (h : (within registry refs depth node value path).outcome = .ok verdict) :
    Yields registry node value path verdict := by
  induction depth generalizing node value path verdict with
  | zero =>
    rw [within_eq] at h
    exact yields_of_level (fun _ _ _ _ h => by simp [descendWithin] at h) h
  | succ depth ih =>
    rw [within_eq] at h
    exact yields_of_level (fun _ _ _ _ h => ih h) h

/-- Validation ends with every verdict that the rule leads to, about a value that is not inside
itself. -/
theorem validateAt_of_yields (hc : registry.IsClosed) {node : Node} {value : Option Value}
    {path : Path} {verdict : Verdict} (h : Yields registry node value path verdict)
    (hv : ∀ v ∈ value, v.isFinite = true) :
    (validateAt registry node value path).outcome = .ok verdict := by
  induction h with
  | @rule node value path verdict judge _ decided ih =>
    refine rule_approximates_validateAt hc node hv path verdict ?_
    refine rule_approximates (fun call hcall path verdict hj => ?_) verdict decided
    exact ih call hcall path verdict hj (isFinite_of_calls hcall hv)

/-- Where validation ends, it is the recursion that the rule describes. -/
theorem validateAt_eq_ok_iff (hc : registry.IsClosed) {node : Node} {value : Option Value}
    (hv : ∀ v ∈ value, v.isFinite = true) {path : Path} {verdict : Verdict} :
    (validateAt registry node value path).outcome = .ok verdict ↔
      (rule registry (validateAt registry) node value path).outcome = .ok verdict := by
  refine ⟨fun h => ?_, rule_approximates_validateAt hc node hv path verdict⟩
  cases yields_of_within h with
  | rule judge known decided =>
    refine rule_approximates (fun call hcall path verdict hj => ?_) verdict decided
    exact validateAt_of_yields hc (known call hcall path verdict hj) (isFinite_of_calls hcall hv)

end Validation

end ZodSchemas
