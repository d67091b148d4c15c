/-!
# Computations that leave a trace

A computation that ends with a value or an error and records events on the way.
The events before an error stay in the trace. A trace never influences the
outcome: it is what a later step replays, such as the log.
-/

namespace ZodSchemas

/-- A composed computation ends with a value exactly when both of its parts do. -/
theorem exceptBind_eq_ok {ε α β : Type} {x : Except ε α} {f : α → Except ε β} {b : β} :
    x >>= f = .ok b ↔ ∃ a, x = .ok a ∧ f a = .ok b := by
  cases x <;> simp [bind, Except.bind]

/-- A composed computation ends with an error exactly when one of its parts does. -/
theorem exceptBind_eq_error {ε α β : Type} {x : Except ε α} {f : α → Except ε β} {e : ε} :
    x >>= f = .error e ↔ x = .error e ∨ ∃ a, x = .ok a ∧ f a = .error e := by
  cases x <;> simp [bind, Except.bind]

/-- A result that is read off as a value is that value. -/
theorem except_eq_ok_of_toOption {ε α : Type} {x : Except ε α} {a : α}
    (h : x.toOption = some a) : x = .ok a := by
  cases x with
  | error e => simp [Except.toOption] at h
  | ok b => exact congrArg _ (Option.some.inj h)

/-- A computation that is changed at the end ends with what its value is changed to. -/
theorem exceptMap_eq_ok {ε α β : Type} {x : Except ε α} {f : α → β} {b : β} :
    x.map f = .ok b ↔ ∃ a, x = .ok a ∧ f a = b := by
  cases x <;> simp [Except.map]

/-- A value that is changed at the end leaves the error as it is. -/
theorem exceptMap_eq_error {ε α β : Type} {x : Except ε α} {f : α → β} {e : ε} :
    x.map f = .error e ↔ x = .error e := by
  cases x <;> simp [Except.map]

/-- An error of a list of computations is that of one of them. -/
theorem exists_of_mapM_eq_error {ε α β : Type} {f : α → Except ε β} {xs : List α} {e : ε}
    (h : xs.mapM f = .error e) : ∃ x ∈ xs, f x = .error e := by
  induction xs with
  | nil => simp [pure, Except.pure] at h
  | cons x rest ih =>
    rw [List.mapM_cons] at h
    rcases exceptBind_eq_error.mp h with hx | ⟨y, -, h⟩
    · exact ⟨x, by simp, hx⟩
    · rcases exceptBind_eq_error.mp h with hr | ⟨ys, -, h⟩
      · obtain ⟨z, hz, hf⟩ := ih hr
        exact ⟨z, List.mem_cons_of_mem _ hz, hf⟩
      · simp [pure, Except.pure] at h

/-- An outcome and the events that led to it. -/
structure Traced (ω ε α : Type) where
  /-- The events in order. -/
  events : List ω
  /-- The value or the error at the end. -/
  outcome : Except ε α

namespace Traced

variable {ω ε α β : Type}

/-- End with an error. -/
protected def fail (e : ε) : Traced ω ε α := ⟨[], .error e⟩

/-- Record one event. -/
def emit (event : ω) : Traced ω ε Unit := ⟨[event], .ok ()⟩

/-- A value or an error without events. -/
def ofExcept (outcome : Except ε α) : Traced ω ε α := ⟨[], outcome⟩

/-- Go on after a value; an error ends everything. -/
protected def bind (x : Traced ω ε α) (f : α → Traced ω ε β) : Traced ω ε β :=
  match x.outcome with
  | .ok a => ⟨x.events ++ (f a).events, (f a).outcome⟩
  | .error e => ⟨x.events, .error e⟩

instance : Monad (Traced ω ε) where
  pure a := ⟨[], .ok a⟩
  bind := Traced.bind

instance : MonadLift (Except ε) (Traced ω ε) := ⟨ofExcept⟩

/-- The same computation with another kind of error. -/
def mapError {δ : Type} (f : ε → δ) (x : Traced ω ε α) : Traced ω δ α :=
  ⟨x.events, x.outcome.mapError f⟩

@[simp] theorem pure_eq (a : α) : (pure a : Traced ω ε α) = ⟨[], .ok a⟩ := rfl

@[simp] theorem bind_ok (events : List ω) (a : α) (f : α → Traced ω ε β) :
    (⟨events, .ok a⟩ : Traced ω ε α) >>= f = ⟨events ++ (f a).events, (f a).outcome⟩ := rfl

@[simp] theorem bind_error (events : List ω) (e : ε) (f : α → Traced ω ε β) :
    (⟨events, .error e⟩ : Traced ω ε α) >>= f = ⟨events, .error e⟩ := rfl

@[simp] theorem liftM_ok (a : α) :
    (liftM (Except.ok a : Except ε α) : Traced ω ε α) = ⟨[], .ok a⟩ := rfl

@[simp] theorem liftM_error (e : ε) :
    (liftM (Except.error e : Except ε α) : Traced ω ε α) = ⟨[], .error e⟩ := rfl

@[simp] theorem outcome_pure (a : α) : (pure a : Traced ω ε α).outcome = .ok a := rfl

/-- A value alone is the value that it ends with. -/
theorem pure_eq_ok {a b : α} : (pure a : Traced ω ε α).outcome = .ok b ↔ a = b := by simp

@[simp] theorem outcome_fail (e : ε) : (Traced.fail e : Traced ω ε α).outcome = .error e := rfl

@[simp] theorem outcome_emit (event : ω) : (emit event : Traced ω ε Unit).outcome = .ok () := rfl

@[simp] theorem outcome_ofExcept (x : Except ε α) : (ofExcept x : Traced ω ε α).outcome = x := rfl

@[simp] theorem outcome_liftM (x : Except ε α) : (liftM x : Traced ω ε α).outcome = x := rfl

/-- What follows a value decides, and an error stays. -/
theorem outcome_bind (x : Traced ω ε α) (f : α → Traced ω ε β) :
    (x >>= f).outcome = x.outcome.bind fun a => (f a).outcome := by
  obtain ⟨events, outcome⟩ := x
  cases outcome <;> rfl

/-- A computation ends with a value exactly when each of its parts does. -/
theorem bind_eq_ok {x : Traced ω ε α} {f : α → Traced ω ε β} {b : β} :
    (x >>= f).outcome = .ok b ↔ ∃ a, x.outcome = .ok a ∧ (f a).outcome = .ok b := by
  rw [outcome_bind]
  cases hx : x.outcome <;> simp [Except.bind]

/-- A computation ends with an error exactly when one of its parts does. -/
theorem bind_eq_error {x : Traced ω ε α} {f : α → Traced ω ε β} {e : ε} :
    (x >>= f).outcome = .error e ↔
      x.outcome = .error e ∨ ∃ a, x.outcome = .ok a ∧ (f a).outcome = .error e := by
  rw [outcome_bind]
  cases hx : x.outcome <;> simp [Except.bind]

/-- A computation with another kind of error ends with the same values. -/
@[simp] theorem mapError_eq_ok {δ : Type} {f : ε → δ} {x : Traced ω ε α} {a : α} :
    (x.mapError f).outcome = .ok a ↔ x.outcome = .ok a := by
  rw [mapError]
  cases x.outcome with
  | ok b =>
    change Except.ok b = .ok a ↔ _
    simp
  | error e =>
    change Except.error (f e) = .ok a ↔ _
    simp

protected theorem id_map (x : Traced ω ε α) : id <$> x = x := by
  obtain ⟨events, outcome⟩ := x
  cases outcome <;> simp [Functor.map, Traced.bind]

protected theorem pure_bind (a : α) (f : α → Traced ω ε β) : pure a >>= f = f a := by simp

protected theorem bind_assoc {γ : Type} (x : Traced ω ε α) (f : α → Traced ω ε β)
    (g : β → Traced ω ε γ) : x >>= f >>= g = x >>= fun a => f a >>= g := by
  obtain ⟨events, outcome⟩ := x
  cases outcome with
  | error e => rfl
  | ok a =>
    simp only [bind_ok]
    rcases hf : f a with ⟨events', outcome'⟩
    cases outcome' <;> simp [List.append_assoc]

instance : LawfulMonad (Traced ω ε) :=
  LawfulMonad.mk' (Traced ω ε) Traced.id_map Traced.pure_bind Traced.bind_assoc

/-- A list of computations ends with the list of the values that each of them ends with. -/
theorem mapM_eq_ok {f : α → Traced ω ε β} {xs : List α} {ys : List β} :
    (xs.mapM f).outcome = .ok ys ↔ xs.map (fun x => (f x).outcome) = ys.map Except.ok := by
  induction xs generalizing ys with
  | nil => cases ys <;> simp
  | cons x rest ih =>
    rw [List.mapM_cons, bind_eq_ok]
    simp only [bind_eq_ok, ih, outcome_pure, Except.ok.injEq, List.map_cons]
    cases ys with
    | nil => simp
    | cons y ys =>
      simp only [List.map_cons, List.cons.injEq]
      constructor
      · rintro ⟨a, ha, as, has, rfl, rfl⟩
        exact ⟨ha, has⟩
      · rintro ⟨hy, hys⟩
        exact ⟨y, hy, ys, hys, rfl, rfl⟩

end Traced

end ZodSchemas
