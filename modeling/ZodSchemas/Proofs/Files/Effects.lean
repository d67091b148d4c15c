import Mathlib.Order.Defs.Unbundled
import ZodSchemas.Files.Tree

/-!
# Effects of computations that may fail

A computation that may fail gives a value or an error and leaves a state, and
what it did to the state before an error stays done. A relation of states that
every step of a computation keeps is kept by the whole computation, as long as
it holds of a state and itself and can be chained: so one says what operations
cannot do to a file tree.
-/

namespace ZodSchemas

variable {σ ε δ α β : Type}

/-- What a computation gives in a state, and the state that it leaves. -/
def effectOf (x : ExceptT ε (StateM σ) α) (s : σ) : Except ε α × σ := StateT.run (ExceptT.run x) s

@[simp] theorem effectOf_pure (a : α) (s : σ) :
    effectOf (pure a : ExceptT ε (StateM σ) α) s = (.ok a, s) := rfl

@[simp] theorem effectOf_throw (e : ε) (s : σ) :
    effectOf (throw e : ExceptT ε (StateM σ) α) s = (.error e, s) := rfl

@[simp] theorem effectOf_get (s : σ) :
    effectOf (get : ExceptT ε (StateM σ) σ) s = (.ok s, s) := rfl

@[simp] theorem effectOf_liftM (x : Except ε α) (s : σ) :
    effectOf (liftM x : ExceptT ε (StateM σ) α) s = (x, s) := rfl

/-- What follows a value goes on from the state that is left, and an error stays. -/
theorem effectOf_bind (x : ExceptT ε (StateM σ) α) (f : α → ExceptT ε (StateM σ) β) (s : σ) :
    effectOf (x >>= f) s = match effectOf x s with
      | (.ok a, t) => effectOf (f a) t
      | (.error e, t) => (.error e, t) := by
  unfold effectOf
  rw [ExceptT.run_bind, StateT.run_bind]
  rcases StateT.run (ExceptT.run x) s with ⟨_ | _, _⟩ <;> rfl

/-- A value stays, and what an error is answered with goes on from the state that is left. -/
theorem effectOf_tryCatch (x : ExceptT ε (StateM σ) α) (f : ε → ExceptT ε (StateM σ) α) (s : σ) :
    effectOf (tryCatch x f) s = match effectOf x s with
      | (.ok a, t) => (.ok a, t)
      | (.error e, t) => effectOf (f e) t := by
  unfold effectOf
  rw [ExceptT.run_tryCatch, StateT.run_bind]
  rcases StateT.run (ExceptT.run x) s with ⟨_ | _, _⟩ <;> rfl

theorem effectOf_map (f : α → β) (x : ExceptT ε (StateM σ) α) (s : σ) :
    effectOf (f <$> x) s = ((effectOf x s).1.map f, (effectOf x s).2) := by
  rw [map_eq_pure_bind, effectOf_bind]
  rcases effectOf x s with ⟨_ | _, _⟩ <;> rfl

/-- A relation of states holds between those before and behind a computation. -/
def Keeps (R : σ → σ → Prop) (x : ExceptT ε (StateM σ) α) : Prop := ∀ s, R s (effectOf x s).2

namespace Keeps

variable {R : σ → σ → Prop}

theorem adapt {x : ExceptT ε (StateM σ) α} (hx : Keeps R x) (f : ε → δ) :
    Keeps R (ExceptT.adapt f x) := fun s => hx s

theorem map {x : ExceptT ε (StateM σ) α} (hx : Keeps R x) (f : α → β) : Keeps R (f <$> x) := by
  intro s
  rw [effectOf_map]
  exact hx s

variable [IsPreorder σ R]

theorem pure (a : α) : Keeps R (Pure.pure a : ExceptT ε (StateM σ) α) := fun s => refl_of R s

theorem throw (e : ε) : Keeps R (MonadExcept.throw e : ExceptT ε (StateM σ) α) :=
  fun s => refl_of R s

theorem bind {x : ExceptT ε (StateM σ) α} {f : α → ExceptT ε (StateM σ) β} (hx : Keeps R x)
    (hf : ∀ a, Keeps R (f a)) : Keeps R (x >>= f) := by
  intro s
  have hs := hx s
  rw [effectOf_bind]
  rcases hr : effectOf x s with ⟨_ | a, t⟩ <;> rw [hr] at hs
  · exact hs
  · exact trans_of R hs (hf a t)

theorem tryCatch {x : ExceptT ε (StateM σ) α} {f : ε → ExceptT ε (StateM σ) α} (hx : Keeps R x)
    (hf : ∀ e, Keeps R (f e)) : Keeps R (MonadExcept.tryCatch x f) := by
  intro s
  have hs := hx s
  have heq := effectOf_tryCatch x f s
  rcases hr : effectOf x s with ⟨e | _, t⟩ <;> rw [hr] at hs heq
  · exact heq ▸ trans_of R hs (hf e t)
  · exact heq ▸ hs

end Keeps

end ZodSchemas
