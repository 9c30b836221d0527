/-!
# Results

When a chain of computations that may fail succeeds.
-/

namespace TopicCipher

variable {ε ε' α β : Type}

/-- Two steps succeed exactly if both of them do. -/
@[simp] theorem bind_eq_ok_iff {x : Except ε α} {f : α → Except ε β} {b : β} :
    (x >>= f) = .ok b ↔ ∃ a, x = .ok a ∧ f a = .ok b := by
  cases x <;> simp [bind, Except.bind]

/-- Another wording of the failure changes no success. -/
@[simp] theorem mapError_eq_ok_iff {x : Except ε α} {f : ε → ε'} {a : α} :
    x.mapError f = .ok a ↔ x = .ok a := by
  cases x with
  | error err =>
    show (Except.error (f err) : Except ε' α) = .ok a ↔ _
    simp
  | ok b =>
    show (Except.ok b : Except ε' α) = .ok a ↔ _
    simp

/-- What is no success is a failure, in the other wording. -/
theorem exists_mapError_eq_error {x : Except ε α} {f : ε → ε'} (h : ∀ a, x.mapError f ≠ .ok a) :
    ∃ err, x.mapError f = .error (f err) := by
  cases x with
  | error err => exact ⟨err, rfl⟩
  | ok a => exact absurd rfl (h a)

/-- What is done with a success makes no success of a failure. -/
@[simp] theorem map_eq_ok_iff {x : Except ε α} {f : α → β} {b : β} :
    x.map f = .ok b ↔ ∃ a, x = .ok a ∧ f a = b := by
  cases x <;> simp [Except.map]

/-- A result without a failure is a success. -/
theorem isOk_iff {x : Except ε α} : x.isOk = true ↔ ∃ a, x = .ok a := by
  cases x <;> simp [Except.isOk, Except.toBool]

end TopicCipher
