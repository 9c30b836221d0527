/-!
# Slots

A map that is small and forgets nothing by itself: every key has at most one slot, and putting
something into a slot replaces what was there.

* `get?_put_self`, `get?_put_of_ne`: a slot holds what was last put there.
-/

namespace TopicCipher

/-- Values by keys. -/
structure Slots (κ : Type) (α : Type) where
  pairs : List (κ × α)
  deriving Repr

namespace Slots

variable {κ α : Type} [DecidableEq κ]

/-- No slot is filled. -/
def empty : Slots κ α := ⟨[]⟩

/-- What is in a slot. -/
def get? (s : Slots κ α) (k : κ) : Option α := (s.pairs.find? (·.1 = k)).map (·.2)

/-- Fills a slot. -/
def put (s : Slots κ α) (k : κ) (a : α) : Slots κ α :=
  ⟨(k, a) :: s.pairs.filter (·.1 ≠ k)⟩

@[simp] theorem get?_empty (k : κ) : (empty : Slots κ α).get? k = none := rfl

@[simp] theorem get?_put_self (s : Slots κ α) (k : κ) (a : α) : (s.put k a).get? k = some a := by
  simp [get?, put]

theorem get?_put_of_ne (s : Slots κ α) {k j : κ} (a : α) (h : j ≠ k) :
    (s.put k a).get? j = s.get? j := by
  have hk : ¬ k = j := fun e => h e.symm
  simp only [get?, put, List.find?_cons, hk, decide_false, List.find?_filter]
  congr 2
  funext p
  by_cases hp : p.1 = j
  · simp [hp, h]
  · simp [hp]

end Slots

end TopicCipher
