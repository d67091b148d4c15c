/-!
# How computations end

A computation that may fail ends in a value or in an error, and one says of each
what it is. So what goes wrong in a whole is known from what goes wrong in its
steps. Where the steps share a state, what holds of it is kept from step to step.
-/

namespace ZodSchemas

variable {ε α β : Type} {E E' : ε → Prop} {P P' : α → Prop} {Q : β → Prop}

/-- A value that comes out has one property, and an error another. -/
def EndsIn (E : ε → Prop) (P : α → Prop) : Except ε α → Prop
  | .ok a => P a
  | .error e => E e

namespace EndsIn

/-- The second step goes on from what the first one gives. -/
theorem bind {x : Except ε α} {f : α → Except ε β} (hx : EndsIn E P x)
    (hf : ∀ a, P a → EndsIn E Q (f a)) : EndsIn E Q (x >>= f) := by
  cases x with
  | error e => exact hx
  | ok a => exact hf a hx

theorem map {x : Except ε α} {f : α → β} (hx : EndsIn E P x) (hf : ∀ a, P a → Q (f a)) :
    EndsIn E Q (x.map f) := by
  cases x with
  | error e => exact hx
  | ok a => exact hf a hx

/-- Weaker properties hold as well. -/
theorem imp {x : Except ε α} (hx : EndsIn E P x) (hE : ∀ e, E e → E' e) (hP : ∀ a, P a → P' a) :
    EndsIn E' P' x := by
  cases x with
  | error e => exact hE e hx
  | ok a => exact hP a hx

end EndsIn

variable {σ : Type} {I : σ → Prop}

/-- From a state of a sort a computation leads to another of the sort, or ends in an error. -/
def Stays (E : ε → Prop) (I : σ → Prop) (x : StateT σ (Except ε) α) : Prop :=
  ∀ s, I s → EndsIn E (fun r => I r.2) (x s)

namespace Stays

variable {x y : StateT σ (Except ε) α}

theorem pure (a : α) : Stays E I (Pure.pure a : StateT σ (Except ε) α) := fun _ hs => hs

theorem throw {e : ε} (h : E e) : Stays E I (MonadExcept.throw e : StateT σ (Except ε) α) :=
  fun _ _ => h

theorem bind {f : α → StateT σ (Except ε) β} (hx : Stays E I x) (hf : ∀ a, Stays E I (f a)) :
    Stays E I (x >>= f) := fun s hs => EndsIn.bind (hx s hs) fun r hr => hf r.1 r.2 hr

/-- A computation that looks at the state first. -/
theorem bind_get {f : σ → StateT σ (Except ε) α} (hf : ∀ s, I s → Stays E I (f s)) :
    Stays E I (get >>= f) := fun s hs => hf s hs s hs

/-- A computation that does not look at the state first. -/
theorem bind_lift {x : Except ε α} {f : α → StateT σ (Except ε) β} (hx : EndsIn E P x)
    (hf : ∀ a, P a → Stays E I (f a)) : Stays E I (liftM x >>= f) := by
  cases x with
  | error e => exact fun _ _ => hx
  | ok a => exact hf a hx

theorem set {s : σ} (h : I s) : Stays E I (MonadStateOf.set s : StateT σ (Except ε) Unit) :=
  fun _ _ => h

theorem of_modify {f : σ → σ} (hf : ∀ s, I s → I (f s)) :
    Stays E I (modify f : StateT σ (Except ε) Unit) := hf

theorem ite {p : Prop} [Decidable p] (hx : Stays E I x) (hy : Stays E I y) :
    Stays E I (if p then x else y) := by
  split
  · exact hx
  · exact hy

theorem mapM {γ : Type} {f : γ → StateT σ (Except ε) α} (hf : ∀ c, Stays E I (f c))
    (cs : List γ) : Stays E I (cs.mapM f) := by
  induction cs with
  | nil => exact .pure []
  | cons c rest ih =>
    rw [List.mapM_cons]
    exact (hf c).bind fun _ => ih.bind fun _ => .pure _

end Stays

end ZodSchemas
