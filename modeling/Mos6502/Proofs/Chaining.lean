/-!
Computations that can fail, one after the other. A chain succeeds if each of its links does, and then
each link had what the one before it gave.
-/

set_option autoImplicit false

namespace Mos6502

variable {ε α β : Type}

/-- What succeeds after another thing did so with what that gave. -/
theorem bind_eq_ok_iff {x : Except ε α} {f : α → Except ε β} {b : β} :
    x >>= f = .ok b ↔ ∃ a, x = .ok a ∧ f a = .ok b := by
  rcases x with fault | a
  · simp [bind, Except.bind]
  · simp [bind, Except.bind]

/-- What is made of a result is there if the result is. -/
theorem map_eq_ok_iff {x : Except ε α} {f : α → β} {b : β} :
    f <$> x = .ok b ↔ ∃ a, x = .ok a ∧ f a = b := by
  rcases x with fault | a
  · simp [Functor.map, Except.map]
  · simp [Functor.map, Except.map]

/-- Another name for the fault does not change what succeeds. -/
theorem mapError_eq_ok_iff {ε' : Type} {x : Except ε α} {f : ε → ε'} {a : α} :
    x.mapError f = .ok a ↔ x = .ok a := by
  rcases x with fault | found
  · exact ⟨nofun, nofun⟩
  · change (.ok found : Except ε' α) = .ok a ↔ _
    simp only [Except.ok.injEq]

end Mos6502
