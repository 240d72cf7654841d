import Mathlib

/-!
# Except

What it means for a computation with errors to succeed.
-/

namespace Pzdr

/-- An `Except` computation as a sequence of results. -/
theorem Except.bind_eq_ok {ε α β : Type} {x : Except ε α} {f : α → Except ε β} {b : β} :
    (x >>= f) = .ok b ↔ ∃ a, x = .ok a ∧ f a = .ok b := by
  cases x with
  | error e =>
    constructor
    · intro h
      cases h
    · rintro ⟨_, h, _⟩
      cases h
  | ok a =>
    constructor
    · intro h
      exact ⟨a, rfl, h⟩
    · rintro ⟨_, h, hf⟩
      cases h
      exact hf

theorem Except.unit_bind_eq_ok {ε β : Type} {x : Except ε Unit} {f : Unit → Except ε β} {b : β} :
    (x >>= f) = .ok b ↔ x = .ok () ∧ f () = .ok b := by
  rw [bind_eq_ok]
  constructor
  · rintro ⟨_, hx, hf⟩
    exact ⟨hx, hf⟩
  · rintro ⟨hx, hf⟩
    exact ⟨(), hx, hf⟩

theorem Except.mapError_eq_ok {ε ε' α : Type} {x : Except ε α} {f : ε → ε'} {a : α} :
    x.mapError f = .ok a ↔ x = .ok a := by
  cases x <;> simp [Except.mapError]

/-- A check that fails if `p` holds. -/
theorem Except.ite_error_eq_ok {ε : Type} {p : Prop} [Decidable p] {e : ε} :
    (if p then .error e else .ok () : Except ε Unit) = .ok () ↔ ¬ p := by
  by_cases h : p <;> simp [h]

end Pzdr
