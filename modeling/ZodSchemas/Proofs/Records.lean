import ZodSchemas.Traced

/-!
# What computations record

Which events a computation can record is read off its parts, since the events of
a composed computation are those of the parts that were reached. So a property
of all events is shown of emissions alone.
-/

namespace ZodSchemas

namespace Traced

variable {ω ε α β δ : Type} {p : ω → Prop}

/-- Past a value the events go on. -/
theorem events_bind {x : Traced ω ε α} {f : α → Traced ω ε β} {a : α} (h : x.outcome = .ok a) :
    (x >>= f).events = x.events ++ (f a).events := by
  obtain ⟨events, outcome⟩ := x
  obtain rfl : outcome = .ok a := h
  rfl

/-- All events of a computation are of a kind. -/
def Records (p : ω → Prop) (x : Traced ω ε α) : Prop := ∀ e ∈ x.events, p e

/-- A value or an error without events is of every kind. -/
theorem records_ofExcept (x : Except ε α) : Records p (ofExcept x) := by simp [Records, ofExcept]

/-- A value alone is of every kind. -/
theorem records_pure (a : α) : Records p (pure a : Traced ω ε α) := by simp [Records]

/-- An error alone is of every kind. -/
theorem records_fail (e : ε) : Records p (Traced.fail e : Traced ω ε α) := by
  simp [Records, Traced.fail]

/-- One event is of the kind of a computation that records it. -/
theorem records_emit {event : ω} (h : p event) : Records p (emit event : Traced ω ε Unit) := by
  simpa [Records, emit] using h

/-- A composed computation is of a kind when its parts are. -/
theorem Records.bind {x : Traced ω ε α} {f : α → Traced ω ε β} (hx : Records p x)
    (hf : ∀ a, x.outcome = .ok a → Records p (f a)) : Records p (x >>= f) := by
  obtain ⟨events, outcome⟩ := x
  cases outcome with
  | error e => exact hx
  | ok a =>
    intro event hm
    rcases List.mem_append.mp hm with hm | hm
    · exact hx event hm
    · exact hf a rfl event hm

/-- A computation with another kind of error has the same events. -/
theorem Records.mapError {f : ε → δ} {x : Traced ω ε α} (h : Records p x) :
    Records p (x.mapError f) := h

end Traced

end ZodSchemas
