import ZodSchemas.Proofs.Validation.Calls

/-!
# Validation without bounds

The verdict about a call is decided by one rule from the verdicts about the
calls it makes. Where every chain of calls ends, the bounds on the depth of the
value and on the references that are followed are never met: validation is the
recursion that the rule describes.
-/

namespace ZodSchemas

namespace Validation

/-- Judgements of nodes and values. -/
abbrev Judge := Node → Option Value → Path → Judging

variable {registry : Registry}

/-- The verdict of the first option that has no complaint, given how options are judged. -/
def firstVerdict (judge : Judge) : List Node → Value → Path → Judging
  | [], v, path => pure (.reject (some v) path "Invalid input: no union option matched")
  | option :: rest, v, path => do
    let verdict ← judge option (some v) path
    if verdict.issues.isEmpty then pure verdict else firstVerdict judge rest v path

/-- The verdict about a call, given how the calls that enter the value are judged, those that
unwrap the node and those that follow a reference. -/
def ruleOf (enter unwrap : Judge) (follow : Ref → Option Value → Path → Judging) : Judge
  | .plain, _, _ => Traced.fail .noRule
  | .unknown, value, _ => pure (.accept value)
  | .lazy ref, value, path => follow ref value path
  | .optional _, none, _ => pure (.accept none)
  | .optional inner, some v, path => unwrap inner (some v) path
  | _, none, path => pure (.reject none path "Required")
  | .string checks, some v, path => string checks v path
  | .number, some v, path => pure (number v path)
  | .boolean, some v, path => pure (boolean v path)
  | .object nodes _, some v, path =>
    match v.entries? with
    | some entries => do
      let (data, issues) ← properties enter entries path nodes
      pure ⟨some (.map data), issues⟩
    | none => pure (.reject (some v) path (expected "object" v))
  | .array element, some v, path =>
    match listItems? v with
    | some items => do
      let (data, issues) ← elements enter element path 0 items
      pure ⟨some (.list data), issues⟩
    | none => pure (.reject (some v) path (expected "array" v))
  | .union options, some v, path => firstVerdict unwrap options v path
  | .enum values, some v, path =>
    if values.any fun allowed => allowed.isMatch v then pure (.accept (some v))
    else rejectWith v path (notAmong values v)
  | .literal allowed, some v, path =>
    if allowed.isMatch v then pure (.accept (some v))
    else rejectWith v path (notEqual allowed)
  | .nullable inner, some v, path =>
    match v with
    | .null => pure (.accept (some .null))
    | v => unwrap inner (some v) path
  | .never, some v, path => pure (.reject (some v) path (expected "never" v))

/-- The verdict about a call, given the judgement of all the calls that it makes. -/
def rule (registry : Registry) (judge : Judge) : Judge :=
  ruleOf judge judge fun ref value path => do
    let body ← registry.resolve ref
    judge body value path

section Steps

variable {enter enter' unwrap unwrap' : Judge}
  {follow follow' : Ref → Option Value → Path → Judging}

/-- The options of a union are taken one after another. -/
theorem firstOption_eq (options : List Node) (v : Value) (path : Path) :
    firstOption enter follow options v path = firstVerdict (step enter follow) options v path := by
  induction options with
  | nil => rfl
  | cons option rest ih =>
    rw [firstOption, firstVerdict]
    simp only [ih]

/-- A step of validation is the rule, applied to steps for the parts of the node. -/
theorem step_eq (node : Node) (value : Option Value) (path : Path) :
    step enter follow node value path =
      ruleOf enter (step enter follow) follow node value path := by
  cases value with
  | none => cases node <;> rfl
  | some v =>
    cases node with
    | union options => exact firstOption_eq options v path
    | _ => rfl

/-- Properties are judged by the calls that enter the mapping. -/
theorem properties_congr {entries : Entries Value} {path : Path} {nodes : Entries Node}
    (h : ∀ e ∈ nodes, ∀ path, enter e.2 (Entries.find? e.1 entries) path =
      enter' e.2 (Entries.find? e.1 entries) path) :
    properties enter entries path nodes = properties enter' entries path nodes := by
  induction nodes with
  | nil => rfl
  | cons e rest ih =>
    obtain ⟨key, node⟩ := e
    rw [properties, properties, ih fun e he => h e (List.mem_cons_of_mem _ he),
      h (key, node) (by simp)]

/-- Elements are judged by the calls that enter the list. -/
theorem elements_congr {element : Node} {path : Path} {index : Nat} {items : List Value}
    (h : ∀ w ∈ items, ∀ path, enter element (some w) path = enter' element (some w) path) :
    elements enter element path index items = elements enter' element path index items := by
  induction items generalizing index with
  | nil => rfl
  | cons w rest ih =>
    rw [elements, elements, ih fun w hw => h w (List.mem_cons_of_mem _ hw), h w (by simp)]

/-- Options are judged by the calls that unwrap the union. -/
theorem firstVerdict_congr {options : List Node} {v : Value} {path : Path}
    (h : ∀ option ∈ options, unwrap option (some v) path = unwrap' option (some v) path) :
    firstVerdict unwrap options v path = firstVerdict unwrap' options v path := by
  induction options with
  | nil => rfl
  | cons option rest ih =>
    rw [firstVerdict, firstVerdict, ih fun o ho => h o (List.mem_cons_of_mem _ ho),
      h option (by simp)]

/-- A value that is not null is judged by the node inside. -/
theorem ruleOf_nullable {inner : Node} {v : Value} {path : Path} (h : v ≠ .null) :
    ruleOf enter unwrap follow (.nullable inner) (some v) path = unwrap inner (some v) path := by
  rw [ruleOf]
  exact h

/-- The rule depends on nothing but the calls that it makes. -/
theorem ruleOf_congr {node : Node} {value : Option Value} {path : Path}
    (he : ∀ call, Enters call (node, value) →
      ∀ path, enter call.1 call.2 path = enter' call.1 call.2 path)
    (hu : ∀ call, Unwraps call (node, value) →
      unwrap call.1 call.2 path = unwrap' call.1 call.2 path)
    (hf : ∀ ref, node = .lazy ref → follow ref value path = follow' ref value path) :
    ruleOf enter unwrap follow node value path =
      ruleOf enter' unwrap' follow' node value path := by
  cases value with
  | none =>
    cases node with
    | lazy ref => exact hf ref rfl
    | _ => rfl
  | some v =>
    cases node with
    | lazy ref => exact hf ref rfl
    | optional inner => exact hu (inner, some v) .optional
    | nullable inner =>
      by_cases hn : v = .null
      · rw [hn]
        rfl
      · rw [ruleOf_nullable hn, ruleOf_nullable hn]
        exact hu (inner, some v) (.nullable hn)
    | union options => exact firstVerdict_congr fun o ho => hu (o, some v) (.option ho)
    | object nodes required =>
      rw [ruleOf, ruleOf]
      cases hv : v.entries? with
      | none => rfl
      | some entries =>
        simp only []
        rw [properties_congr fun e hm => he (e.2, Entries.find? e.1 entries) (.property hv hm)]
    | array element =>
      rw [ruleOf, ruleOf]
      cases hv : listItems? v with
      | none => rfl
      | some items =>
        simp only []
        rw [elements_congr fun w hm => he (element, some w) (.element hv hm)]
    | _ => rfl

end Steps

section Bounds

/-- A reference is met while validation stays on one level. -/
def Meets (registry : Registry) (node : Node) (ref : Ref) : Prop :=
  ∃ start ∈ node.unguardedRefs, Relation.ReflTransGen registry.LeadsTo start ref

/-- How parts are judged when a value may be some levels deep. -/
def descendWithin (registry : Registry) (refs : List Ref) : Nat → Judge
  | 0 => fun _ _ _ => Traced.fail .endless
  | depth + 1 => within registry refs depth

/-- The bounds on depth admit a value. -/
def AdmitsValue (depth : Nat) (value : Option Value) : Prop :=
  ∀ v ∈ value, ∃ n, depth = n + 1 ∧ v.fits n = true

/-- The bounds of validation admit a call: all references are counted, those that are met on
this level are still to be followed, and the value is not too deep. -/
structure Admits (registry : Registry) (refs pending : List Ref) (fuel depth : Nat) (call : Call) :
    Prop where
  /-- The references of the registry are counted. -/
  registered : ∀ ref ∈ registry.refs, ref ∈ refs
  /-- The references of the node are counted. -/
  counted : ∀ ref ∈ call.1.refs, ref ∈ refs
  /-- The references that are met on this level were not followed before. -/
  met : ∀ ref, Meets registry call.1 ref → ref ∈ pending
  /-- So many references may be followed. -/
  enough : pending.length ≤ fuel
  /-- The value is not too deep. -/
  shallow : AdmitsValue depth call.2

/-- Validation within a depth is a level on which all references may be followed. -/
theorem within_eq (registry : Registry) (refs : List Ref) (depth : Nat) :
    within registry refs depth =
      level registry (descendWithin registry refs depth) refs.length refs := by
  cases depth <;> rfl

/-- A level is the rule, applied to the same level for the parts of the node. -/
theorem level_eq {descend : Judge} {fuel : Nat} {pending : List Ref} (node : Node)
    (value : Option Value) (path : Path) :
    level registry descend fuel pending node value path =
      ruleOf descend (level registry descend fuel pending)
        (fun ref value path => level registry descend fuel pending (.lazy ref) value path)
        node value path := by
  cases fuel <;> exact step_eq node value path

/-- A reference that is still to be followed is resolved, and its body is judged on the same
level. -/
theorem level_lazy {descend : Judge} {fuel : Nat} {pending : List Ref} {ref : Ref}
    (value : Option Value) (path : Path) (h : ref ∈ pending) :
    level registry descend (fuel + 1) pending (.lazy ref) value path =
      registry.resolve ref >>= fun body =>
        level registry descend fuel (pending.erase ref) body value path := by
  rw [level, step, if_pos h]

/-- The references that are met from a node are references of the node or of the registry. -/
theorem mem_of_meets (hc : registry.IsClosed) {node : Node} {ref : Ref}
    (h : Meets registry node ref) : ref ∈ node.refs ∨ ref ∈ registry.refs := by
  obtain ⟨start, hs, hr⟩ := h
  cases hr with
  | refl => exact .inl (Node.refs_of_unguardedRefs _ _ hs)
  | tail _ hl =>
    obtain ⟨body, hb, hm⟩ := hl
    exact .inr (hc _ body hb ref (Node.refs_of_unguardedRefs _ _ hm))

/-- A level on which nothing was followed yet admits what it counts. -/
theorem Admits.start (hc : registry.IsClosed) {refs : List Ref} {depth : Nat} {call : Call}
    (hr : ∀ ref ∈ registry.refs, ref ∈ refs) (hn : ∀ ref ∈ call.1.refs, ref ∈ refs)
    (hv : AdmitsValue depth call.2) : Admits registry refs refs refs.length depth call where
  registered := hr
  counted := hn
  met := fun ref hm => (mem_of_meets hc hm).elim (hn ref) (hr ref)
  enough := Nat.le_refl _
  shallow := hv

/-- The bounds that validation starts with admit every value that is not inside itself. -/
theorem admitsValue_depthOf {value : Option Value} (h : ∀ v ∈ value, v.isFinite = true) :
    AdmitsValue (depthOf value) value := by
  intro v hv
  obtain rfl := Option.mem_def.mp hv
  exact ⟨v.depth, rfl, h v rfl⟩

/-- A value that some bound on depth admits is not inside itself. -/
theorem AdmitsValue.isFinite {depth : Nat} {value : Option Value} (h : AdmitsValue depth value) :
    ∀ v ∈ value, v.isFinite = true := by
  intro v hv
  obtain ⟨n, -, hf⟩ := h v hv
  exact Value.isFinite_iff.mpr ⟨n, hf⟩

/-- A part of an admitted value is admitted one level deeper. -/
theorem AdmitsValue.of_mem_parts {depth : Nat} {v w : Value} (h : AdmitsValue (depth + 1) (some v))
    (hw : w ∈ v.parts) : AdmitsValue depth (some w) := by
  rintro u ⟨⟩
  obtain ⟨n, hn, hf⟩ := h v rfl
  obtain rfl : depth = n := by omega
  cases depth with
  | zero =>
    have he : v.parts = [] := by simpa [Value.fits] using hf
    simp [he] at hw
  | succ m => exact ⟨m, rfl, Value.fits_succ.mp hf w hw⟩

/-- A call that enters an admitted value is admitted one level deeper. -/
theorem Admits.enter (hc : registry.IsClosed) {refs pending : List Ref} {fuel depth : Nat}
    {call callee : Call} (h : Admits registry refs pending fuel depth call)
    (he : Enters callee call) :
    ∃ d, depth = d + 1 ∧ Admits registry refs refs refs.length d callee := by
  cases he with
  | @property nodes required v entries key node hv hm =>
    obtain ⟨d, rfl, hf⟩ := h.shallow v rfl
    refine ⟨d, rfl, .start hc h.registered (fun ref hr => ?_) fun w hw => ?_⟩
    · exact h.counted ref (Node.mem_propertyRefs.mpr ⟨(key, node), hm, hr⟩)
    · exact h.shallow.of_mem_parts (mem_parts_of_find? hv hw) w rfl
  | @element element v w items hv hm =>
    obtain ⟨d, rfl, hf⟩ := h.shallow v rfl
    refine ⟨d, rfl, .start hc h.registered h.counted ?_⟩
    exact h.shallow.of_mem_parts (mem_parts_of_listItems? hv hm)

/-- A call that unwraps the node of an admitted call is admitted on the same level. -/
theorem Admits.unwrap {refs pending : List Ref} {fuel depth : Nat} {call callee : Call}
    (h : Admits registry refs pending fuel depth call) (hu : Unwraps callee call) :
    Admits registry refs pending fuel depth callee := by
  cases hu with
  | @option options option v hm =>
    refine ⟨h.registered, fun ref hr => ?_, fun ref ⟨start, hs, hr⟩ => ?_, h.enough, h.shallow⟩
    · exact h.counted ref (Node.mem_optionRefs.mpr ⟨option, hm, hr⟩)
    · exact h.met ref ⟨start, Node.mem_unguardedOptionRefs.mpr ⟨option, hm, hs⟩, hr⟩
  | nullable _ => exact ⟨h.registered, h.counted, h.met, h.enough, h.shallow⟩
  | optional => exact ⟨h.registered, h.counted, h.met, h.enough, h.shallow⟩

/-- The body behind an admitted reference is admitted on the same level once the reference is
followed, since it does not lead back. -/
theorem Admits.follow (ha : registry.IsAcyclic) (hc : registry.IsClosed)
    {refs pending : List Ref} {fuel depth : Nat} {ref : Ref} {body : Node} {value : Option Value}
    (h : Admits registry refs pending (fuel + 1) depth (.lazy ref, value))
    (hb : registry.body ref = .ok body) :
    Admits registry refs (pending.erase ref) fuel depth (body, value) where
  registered := h.registered
  counted := fun next hn => h.registered next (hc ref body hb next hn)
  met := by
    rintro next ⟨start, hs, hr⟩
    have hlead : registry.LeadsTo ref start := ⟨body, hb, hs⟩
    have hne : next ≠ ref := by
      rintro rfl
      exact ha next (.head' hlead hr)
    refine (List.mem_erase_of_ne hne).mpr (h.met next ⟨ref, ?_, .head hlead hr⟩)
    simp [Node.unguardedRefs]
  enough := by
    have hm : ref ∈ pending := h.met ref ⟨ref, by simp [Node.unguardedRefs], .refl⟩
    have hl := h.enough
    rw [List.length_erase_of_mem hm]
    omega
  shallow := h.shallow

end Bounds

/-- What goes on after a reference is resolved depends on its body only. -/
theorem resolve_bind_congr {α : Type} {ref : Ref} {f g : Node → Following Fault α}
    (h : ∀ body, registry.body ref = .ok body → f body = g body) :
    registry.resolve ref >>= f = registry.resolve ref >>= g := by
  unfold Registry.resolve
  cases hb : registry.body ref with
  | error e => rfl
  | ok body => simp [Traced.emit, h body hb]

/-- Where bounds admit a call that ends, a level is the rule without bounds. -/
theorem level_eq_rule (ha : registry.IsAcyclic) (hc : registry.IsClosed) {call : Call}
    (hcall : Acc (Calls registry) call) {refs pending : List Ref} {fuel depth : Nat}
    (h : Admits registry refs pending fuel depth call) (path : Path) :
    level registry (descendWithin registry refs depth) fuel pending call.1 call.2 path =
      rule registry (validateAt registry) call.1 call.2 path := by
  induction hcall generalizing refs pending fuel depth path with
  | intro call _ ih =>
    -- The bounds of this level and those that validation would start with both give the rule.
    have agrees : ∀ callee, Calls registry callee call → ∀ (pending : List Ref) (fuel depth : Nat),
        Admits registry refs pending fuel depth callee → ∀ path,
        level registry (descendWithin registry refs depth) fuel pending callee.1 callee.2 path =
          validateAt registry callee.1 callee.2 path := by
      intro callee hcallee pending fuel depth hadmits path
      have hstart : Admits registry (registry.refs ++ callee.1.refs).eraseDups
          (registry.refs ++ callee.1.refs).eraseDups
          (registry.refs ++ callee.1.refs).eraseDups.length (depthOf callee.2) callee :=
        .start hc (fun ref hr => by simp [hr]) (fun ref hr => by simp [hr])
          (admitsValue_depthOf hadmits.shallow.isFinite)
      rw [ih callee hcallee hadmits path, validateAt, within_eq, ih callee hcallee hstart path]
    obtain ⟨node, value⟩ := call
    rw [level_eq]
    refine ruleOf_congr (fun callee he path => ?_) (fun callee hu => ?_) fun ref hr => ?_
    · obtain ⟨d, rfl, hadmits⟩ := h.enter hc he
      rw [descendWithin, within_eq]
      exact agrees callee (.enter he) _ _ _ hadmits path
    · exact agrees callee (.unwrap hu) _ _ _ (h.unwrap hu) path
    · obtain rfl : node = .lazy ref := hr
      have hm : ref ∈ pending := h.met ref ⟨ref, by simp [Node.unguardedRefs], .refl⟩
      have hl := h.enough
      have hpos := List.length_pos_of_mem hm
      obtain ⟨fuel, rfl⟩ : ∃ k, fuel = k + 1 := ⟨fuel - 1, by omega⟩
      rw [level_lazy value path hm]
      refine resolve_bind_congr fun body hb => ?_
      exact agrees (body, value) (.follow hb) _ _ _ (h.follow ha hc hb) path

/-- Validation is the recursion that the rule describes, wherever no reference leads back to
itself on one level and the value is not inside itself. -/
theorem validateAt_eq (ha : registry.IsAcyclic) (hc : registry.IsClosed) (node : Node)
    {value : Option Value} (hv : ∀ v ∈ value, v.isFinite = true) (path : Path) :
    validateAt registry node value path = rule registry (validateAt registry) node value path := by
  have hcall := acc_calls ha hc node hv
  rw [validateAt, within_eq]
  refine level_eq_rule ha hc hcall ?_ path
  exact .start hc (fun ref hr => by simp [hr]) (fun ref hr => by simp [hr])
    (admitsValue_depthOf hv)

end Validation

end ZodSchemas
