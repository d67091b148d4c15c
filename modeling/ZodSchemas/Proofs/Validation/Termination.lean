import ZodSchemas.Proofs.Conversion.Ending
import ZodSchemas.Proofs.Validation.Rule
import ZodSchemas.Proofs.Value.Written

/-!
# Validation ends

Where no reference leads back to itself on one level, validation is a recursion
whose calls end, and a fault comes of one of them: a node of no kind, a length
that is no number, a value that cannot be written, or a definition that is not
converted. It is never that validation goes on forever, unless the conversion
of a definition does.
-/

namespace ZodSchemas

namespace Validation

variable {registry : Registry}

/-- The rule of a call refuses to decide it, with a fault of its own. -/
inductive Raises (registry : Registry) : Call → Fault → Prop where
  /-- A node of no kind. -/
  | plain {value : Option Value} : Raises registry (.plain, value) .noRule
  /-- A check that cannot be made. -/
  | check {checks : List Check} {t : Text} {fault : Fault}
      (h : checksIssues t checks = .error fault) :
      Raises registry (.string checks, some (.text t)) fault
  /-- A value that is none of several, which cannot be said. -/
  | choice {values : List Value} {v : Value} {fault : Fault}
      (h : notAmong values v = .error fault) : Raises registry (.enum values, some v) fault
  /-- A value that is not a certain one, which cannot be said. -/
  | literal {allowed v : Value} {fault : Fault} (h : notEqual allowed = .error fault) :
      Raises registry (.literal allowed, some v) fault
  /-- A reference without a body. -/
  | body {ref : Ref} {value : Option Value} {fault : Fault}
      (h : registry.body ref = .error fault) : Raises registry (.lazy ref, value) fault

section Faults

variable {enter unwrap : Judge} {follow : Ref → Option Value → Path → Judging} {fault : Fault}

/-- A fault of properties is that of one of them. -/
theorem exists_of_properties_error {entries : Entries Value} {path : Path} {nodes : Entries Node}
    (h : (properties enter entries path nodes).outcome = .error fault) :
    ∃ e ∈ nodes, ∃ path, (enter e.2 (Entries.find? e.1 entries) path).outcome = .error fault := by
  induction nodes with
  | nil => simp [properties] at h
  | cons e rest ih =>
    obtain ⟨key, node⟩ := e
    rw [properties] at h
    rcases Traced.bind_eq_error.mp h with h | ⟨verdict, -, h⟩
    · exact ⟨(key, node), by simp, _, h⟩
    · rcases Traced.bind_eq_error.mp h with h | ⟨others, -, h⟩
      · obtain ⟨e, he, hf⟩ := ih h
        exact ⟨e, List.mem_cons_of_mem _ he, hf⟩
      · simp at h

/-- A fault of elements is that of one of them. -/
theorem exists_of_elements_error {element : Node} {path : Path} {index : Nat} {items : List Value}
    (h : (elements enter element path index items).outcome = .error fault) :
    ∃ w ∈ items, ∃ path, (enter element (some w) path).outcome = .error fault := by
  induction items generalizing index with
  | nil => simp [elements] at h
  | cons w rest ih =>
    rw [elements] at h
    rcases Traced.bind_eq_error.mp h with h | ⟨verdict, -, h⟩
    · exact ⟨w, by simp, _, h⟩
    · rcases Traced.bind_eq_error.mp h with h | ⟨others, -, h⟩
      · obtain ⟨u, hu, hf⟩ := ih h
        exact ⟨u, List.mem_cons_of_mem _ hu, hf⟩
      · simp at h

/-- A fault of options is that of one of them. -/
theorem exists_of_firstVerdict_error {options : List Node} {v : Value} {path : Path}
    (h : (firstVerdict unwrap options v path).outcome = .error fault) :
    ∃ option ∈ options, (unwrap option (some v) path).outcome = .error fault := by
  induction options with
  | nil => simp [firstVerdict] at h
  | cons option rest ih =>
    rw [firstVerdict] at h
    rcases Traced.bind_eq_error.mp h with h | ⟨verdict, -, h⟩
    · exact ⟨option, by simp, h⟩
    · split at h
      · simp at h
      · obtain ⟨o, ho, hf⟩ := ih h
        exact ⟨o, List.mem_cons_of_mem _ ho, hf⟩

/-- A complaint that cannot be said is the fault. -/
theorem rejectWith_eq_error {v : Value} {path : Path} {complaint : Except Fault Text}
    (h : (rejectWith v path complaint).outcome = .error fault) : complaint = .error fault := by
  rcases Traced.bind_eq_error.mp h with h | ⟨message, -, h⟩
  · exact h
  · simp at h

/-- Where the rule decides from what it is given, a fault is given or raised. -/
inductive Passes (registry : Registry) (enter unwrap : Judge)
    (follow : Ref → Option Value → Path → Judging) (call : Call) (fault : Fault) : Prop where
  /-- The fault of a call that enters the value. -/
  | enter (callee : Call) (path : Path) (made : Enters callee call)
      (h : (enter callee.1 callee.2 path).outcome = .error fault)
  /-- The fault of a call that unwraps the node. -/
  | unwrap (callee : Call) (path : Path) (made : Unwraps callee call)
      (h : (unwrap callee.1 callee.2 path).outcome = .error fault)
  /-- The fault of a reference that is followed. -/
  | follow (ref : Ref) (path : Path) (made : call.1 = .lazy ref)
      (h : (follow ref call.2 path).outcome = .error fault)
  /-- A fault of the rule. -/
  | own (h : Raises registry call fault)

/-- A fault of the rule is one that it passes on or raises. -/
theorem passes_of_ruleOf {node : Node} {value : Option Value} {path : Path}
    (h : (ruleOf enter unwrap follow node value path).outcome = .error fault) :
    Passes registry enter unwrap follow (node, value) fault := by
  cases value with
  | none =>
    cases node with
    | lazy ref => exact .follow ref path rfl h
    | plain =>
      obtain rfl : Fault.noRule = fault := by simpa [ruleOf] using h
      exact .own .plain
    | _ => simp [ruleOf] at h
  | some v =>
    cases node with
    | lazy ref => exact .follow ref path rfl h
    | plain =>
      obtain rfl : Fault.noRule = fault := by simpa [ruleOf] using h
      exact .own .plain
    | optional inner => exact .unwrap (inner, some v) path .optional h
    | nullable inner =>
      by_cases hn : v = .null
      · subst hn
        simp [ruleOf] at h
      · rw [ruleOf_nullable hn] at h
        exact .unwrap (inner, some v) path (.nullable hn) h
    | union options =>
      obtain ⟨option, hm, h⟩ := exists_of_firstVerdict_error h
      exact .unwrap (option, some v) path (.option hm) h
    | object nodes required =>
      rw [ruleOf] at h
      cases hv : v.entries? with
      | none => simp [hv] at h
      | some entries =>
        rw [hv] at h
        rcases Traced.bind_eq_error.mp h with h | ⟨result, -, h⟩
        · obtain ⟨e, hm, path, h⟩ := exists_of_properties_error h
          exact .enter (e.2, Entries.find? e.1 entries) path (.property hv hm) h
        · simp at h
    | array element =>
      rw [ruleOf] at h
      cases hv : listItems? v with
      | none => simp [hv] at h
      | some items =>
        rw [hv] at h
        rcases Traced.bind_eq_error.mp h with h | ⟨result, -, h⟩
        · obtain ⟨w, hm, path, h⟩ := exists_of_elements_error h
          exact .enter (element, some w) path (.element hv hm) h
        · simp at h
    | string checks =>
      rw [ruleOf] at h
      unfold string at h
      split at h
      · next t =>
        rcases Traced.bind_eq_error.mp h with h | ⟨messages, -, h⟩
        · exact .own (.check h)
        · simp at h
      · simp at h
    | enum values =>
      rw [ruleOf] at h
      split at h
      · simp at h
      · exact .own (.choice (rejectWith_eq_error h))
    | literal allowed =>
      rw [ruleOf] at h
      split at h
      · simp at h
      · exact .own (.literal (rejectWith_eq_error h))
    | _ => simp [ruleOf] at h

/-- A check is refused for its bound or for a number that cannot be written. -/
theorem ne_endless_of_checksIssues {t : Text} {checks : List Check}
    (h : checksIssues t checks = .error fault) : fault ≠ .endless := by
  have of_complaint : ∀ (isBad : Bool) (bound : Value) (words : Text → Text) (e : Fault),
      complaintIf isBad (bound.plain >>= fun limit => .ok (words limit)) = .error e →
      e ≠ .endless := by
    intro isBad bound words e he
    unfold complaintIf at he
    split at he
    · rcases exceptBind_eq_error.mp (exceptMap_eq_error.mp he) with he | ⟨limit, -, he⟩
      · simp [Value.fault_of_plain he]
      · simp at he
    · simp at he
  induction checks with
  | nil => simp [checksIssues] at h
  | cons check rest ih =>
    rw [checksIssues] at h
    rcases exceptBind_eq_error.mp h with h | ⟨first, -, h⟩
    · unfold checkIssues at h
      simp only [] at h
      split at h
      · split at h
        · exact of_complaint _ _ _ _ h
        · obtain rfl := Except.error.inj h
          simp
      · split at h
        · exact of_complaint _ _ _ _ h
        · obtain rfl := Except.error.inj h
          simp
      · simp at h
      · simp at h
    · rcases exceptBind_eq_error.mp h with h | ⟨others, -, h⟩
      · exact ih h
      · simp at h

/-- No rule goes on forever. -/
theorem Raises.ne_endless {call : Call} (h : Raises registry call fault)
    (hb : ∀ ref, registry.body ref ≠ .error .endless) : fault ≠ .endless := by
  cases h with
  | plain => simp
  | check h => exact ne_endless_of_checksIssues h
  | @choice values v fault h =>
    rcases exceptBind_eq_error.mp h with h | ⟨allowed, -, h⟩
    · obtain ⟨w, -, hw⟩ := exists_of_mapM_eq_error h
      simp [Value.fault_of_quoted w fault hw]
    · rcases exceptBind_eq_error.mp h with h | ⟨received, -, h⟩
      · simp [Value.fault_of_quoted v fault h]
      · simp at h
  | @literal allowed v fault h =>
    rcases exceptBind_eq_error.mp h with h | ⟨t, -, h⟩
    · simp [Value.fault_of_quoted allowed fault h]
    · simp at h
  | @body ref value fault h =>
    rintro rfl
    exact hb ref h

end Faults

/-- Validation passes on the faults of the calls that it makes, and raises no others: a fault is
raised by the rule of one call on a chain of calls. -/
theorem exists_raises_of_error (ha : registry.IsAcyclic) (hc : registry.IsClosed) {node : Node}
    {value : Option Value} {path : Path} {fault : Fault} (hv : ∀ v ∈ value, v.isFinite = true)
    (h : (validateAt registry node value path).outcome = .error fault) :
    ∃ call, Relation.ReflTransGen (Calls registry) call (node, value) ∧
      Raises registry call fault := by
  suffices main : ∀ call, Acc (Calls registry) call → (∀ v ∈ call.2, v.isFinite = true) →
      ∀ path, (validateAt registry call.1 call.2 path).outcome = .error fault →
      ∃ first, Relation.ReflTransGen (Calls registry) first call ∧ Raises registry first fault from
    main (node, value) (acc_calls ha hc node hv) hv path h
  intro call hcall
  induction hcall with
  | intro call _ ih =>
    intro hv path h
    have passed : ∀ callee, Calls registry callee call → ∀ path,
        (validateAt registry callee.1 callee.2 path).outcome = .error fault →
        ∃ first, Relation.ReflTransGen (Calls registry) first call ∧
          Raises registry first fault := by
      intro callee hcallee path h
      obtain ⟨first, hr, hf⟩ := ih callee hcallee (isFinite_of_calls hcallee hv) path h
      exact ⟨first, hr.tail hcallee, hf⟩
    rw [validateAt_eq ha hc call.1 hv] at h
    have hp : Passes registry _ _ _ call fault := passes_of_ruleOf h
    cases hp with
    | enter callee path made h => exact passed callee (.enter made) path h
    | unwrap callee path made h => exact passed callee (.unwrap made) path h
    | own h => exact ⟨call, .refl, h⟩
    | follow ref path made h =>
      obtain ⟨node, value⟩ := call
      obtain rfl : node = .lazy ref := made
      rcases Traced.bind_eq_error.mp h with h | ⟨body, hb, h⟩
      · exact ⟨_, .refl, .body (Registry.resolve_eq_error.mp h)⟩
      · exact passed (body, value) (.follow (Registry.resolve_eq_ok.mp hb)) path h

/-- What a chain of calls starts with is not inside itself when what it ends with is not. -/
theorem isFinite_of_chain {first call : Call}
    (h : Relation.ReflTransGen (Calls registry) first call)
    (hv : ∀ v ∈ call.2, v.isFinite = true) : ∀ v ∈ first.2, v.isFinite = true := by
  induction h using Relation.ReflTransGen.head_induction_on with
  | refl => exact hv
  | head hc _ ih => exact isFinite_of_calls hc ih

/-- How validation ends. -/
structure Ends (c : Converter) (node : Node) (value : Option Value) (path : Path) : Prop where
  /-- Every chain of calls ends. -/
  chains : Acc (Calls c.registry) (node, value)
  /-- Each call on a chain is decided by the rule from the calls that it makes. -/
  decided : ∀ call, Relation.ReflTransGen (Calls c.registry) call (node, value) → ∀ path,
    validateAt c.registry call.1 call.2 path =
      rule c.registry (validateAt c.registry) call.1 call.2 path
  /-- The result is a verdict, or the fault that the rule of one call raises. -/
  result : (∃ verdict, (validateAt c.registry node value path).outcome = .ok verdict) ∨
    ∃ call fault, Relation.ReflTransGen (Calls c.registry) call (node, value) ∧
      Raises c.registry call fault ∧
      (validateAt c.registry node value path).outcome = .error fault
  /-- It does not go on forever, unless a definition is inside itself. -/
  bounded : c.definitions.isFinite = true →
    (validateAt c.registry node value path).outcome ≠ .error .endless

/-- Validation of a value that is not inside itself ends, whatever cycles through properties and
elements there are. -/
theorem validation_ends (c : Converter) (ha : c.registry.IsAcyclic) (node : Node)
    {value : Option Value} (hv : ∀ v ∈ value, v.isFinite = true) (path : Path) :
    Ends c node value path := by
  have hc := c.registry_isClosed
  refine ⟨acc_calls ha hc node hv, fun call hr path => ?_, ?_, fun hd h => ?_⟩
  · exact validateAt_eq ha hc call.1 (isFinite_of_chain hr hv) path
  · cases h : (validateAt c.registry node value path).outcome with
    | ok verdict => exact .inl ⟨verdict, rfl⟩
    | error fault =>
      obtain ⟨call, hr, hf⟩ := exists_raises_of_error ha hc hv h
      exact .inr ⟨call, fault, hr, hf, rfl⟩
  · obtain ⟨call, -, hf⟩ := exists_raises_of_error ha hc hv h
    exact hf.ne_endless (Converter.body_ne_endless hd) rfl

/-- Only a name that is defined leads on. -/
theorem isAmong_of_leadsTo {c : Converter} {ref next : Ref} (h : c.registry.LeadsTo ref next) :
    ref.name.isAmong (Converter.definedNames c.definitions) = true := by
  obtain ⟨body, hb, hm⟩ := h
  rcases Converter.body_eq_ok.mp hb with ⟨schema, hf, -⟩ | ⟨-, rfl⟩
  · exact Converter.isAmong_definedNames hf
  · simp [Node.unguardedRefs] at hm

/-- A reference to an object that refers back through a property. -/
def backDocument : Value :=
  .map [("components", .map [("schemas", .map [
    ("P", .map [("$ref", "#/A")]),
    ("A", .map [("type", "object"), ("properties", .map [("next", .map [("$ref", "#/P")])])])])])]

/-- Validation against a reference to an object that refers back ends. -/
theorem validation_ends_back : ∃ c, convertDocument backDocument = .ok c ∧
    c.registry.IsAcyclic ∧
    (Value.map [("next", .map [("next", .null)])]).isFinite = true ∧
    Ends c (.lazy ⟨"P", 1⟩) (some (.map [("next", .map [("next", .null)])])) [] := by
  have acyclic : ∀ c, convertDocument backDocument = .ok c → c.registry.IsAcyclic := by
    rintro c ⟨⟩
    refine Registry.isAcyclic_of_ends fun ref next h other ho => ?_
    obtain ⟨name, origin⟩ := ref
    have hn : name ∈ [Key.text "P", .text "A"] :=
      Key.mem_texts_of_isAmong ["P", "A"] (isAmong_of_leadsTo h)
    obtain ⟨body, hb, hm⟩ := h
    rcases List.mem_cons.mp hn with rfl | hn
    · -- The reference leads to the object, which leads on to nothing.
      cases hb
      obtain rfl : next = ⟨"A", 1⟩ := List.mem_singleton.mp hm
      obtain ⟨body, hb, hm⟩ := ho
      cases hb
      cases hm
    · obtain rfl := List.mem_singleton.mp hn
      cases hb
      cases hm
  refine ⟨_, rfl, acyclic _ rfl, rfl, validation_ends _ (acyclic _ rfl) _ ?_ []⟩
  rintro v ⟨⟩
  rfl

/-- A definition whose only property is the definition itself. -/
def loop : Knot :=
  #[.map [("type", .key "object"), ("properties", .place 1)], .map [("x", .place 0)]]

/-- A document with a definition that is inside itself. -/
def loopDocument : Value :=
  .map [("components", .map [("schemas", .map [("A", .knot loop 0)])])]

/-- A document with a least length that is no number. -/
def wordBoundDocument : Value :=
  .map [("components", .map [("schemas", .map [
    ("A", .map [("type", "string"), ("minLength", "3")])])])]

/-- There is no verdict where a definition is inside itself, and none where the rule of a call
raises a fault, although no reference leads back to itself. -/
theorem validation_without_verdict :
    (∃ c, convertDocument loopDocument = .ok c ∧ c.registry.IsAcyclic ∧
      (Value.map []).isFinite = true ∧
      (validate c.registry (.lazy ⟨"A", 1⟩) (some (.map []))).outcome = .error .endless) ∧
    ∃ c, convertDocument wordBoundDocument = .ok c ∧ c.registry.IsAcyclic ∧
      (Value.text "a").isFinite = true ∧
      (validate c.registry (.lazy ⟨"A", 1⟩) (some "a")).outcome = .error (.noBound .text) := by
  refine ⟨⟨_, rfl, Registry.isAcyclic_of_ends fun ref next h => ?_, rfl, rfl⟩,
    ⟨_, rfl, Registry.isAcyclic_of_ends fun ref next h => ?_, rfl, rfl⟩⟩
  all_goals
    obtain ⟨name, origin⟩ := ref
    have hn : name ∈ [Key.text "A"] := Key.mem_texts_of_isAmong ["A"] (isAmong_of_leadsTo h)
    obtain rfl := List.mem_singleton.mp hn
    obtain ⟨body, hb, hm⟩ := h
    cases hb
  cases hm

end Validation

end ZodSchemas
