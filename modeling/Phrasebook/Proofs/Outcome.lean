/-
# Phrasebook.Proofs.Outcome -- taking a sequence of fallible steps apart

A sequence of steps that may fail succeeds exactly if its first step does and the rest succeeds on
what that gives; it fails exactly if the first step does or the rest fails.
-/
namespace Phrasebook

variable {ε α β : Type _}

/-- A sequence succeeds through its first step. -/
theorem bind_eq_ok_iff {x : Except ε α} {f : α → Except ε β} {r : β} :
    (x >>= f) = .ok r ↔ ∃ a, x = .ok a ∧ f a = .ok r := by
  cases x with
  | error e => simp [bind, Except.bind]
  | ok a => simp [bind, Except.bind]

/-- A sequence fails in its first step, or else behind it. -/
theorem bind_eq_error_iff {x : Except ε α} {f : α → Except ε β} {e : ε} :
    (x >>= f) = .error e ↔ x = .error e ∨ ∃ a, x = .ok a ∧ f a = .error e := by
  cases x with
  | error e => simp [bind, Except.bind]
  | ok a => simp [bind, Except.bind]

/-- With another error a step succeeds as before. -/
theorem mapError_eq_ok_iff {ε' : Type _} {x : Except ε α} {f : ε → ε'} {a : α} :
    x.mapError f = .ok a ↔ x = .ok a := by
  cases x with
  | error e =>
    constructor <;> intro h <;> cases h
  | ok b =>
    constructor
    · intro h
      rw [Except.ok.inj h]
    · intro h
      obtain rfl := Except.ok.inj h
      rfl

/-- It fails as before, with the other error. -/
theorem mapError_eq_error_iff {ε' : Type _} {x : Except ε α} {f : ε → ε'} {e' : ε'} :
    x.mapError f = .error e' ↔ ∃ e, x = .error e ∧ f e = e' := by
  cases x with
  | error e =>
    constructor
    · intro h
      exact ⟨e, rfl, Except.error.inj h⟩
    · rintro ⟨_, h, rfl⟩
      obtain rfl := Except.error.inj h
      rfl
  | ok b =>
    constructor
    · intro h
      cases h
    · rintro ⟨_, h, _⟩
      cases h

end Phrasebook
