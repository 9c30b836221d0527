import TopicCipher.Proofs.Dialogue

/-!
# What is said decides what is given

A dialogue has no choice of its own.  It puts its next question by the answers so far, and when it
has no question left it gives a value.  So of two ways in which a dialogue can go, both within what
is said up to some place, neither can end before the other, and both give the same value.

Layers of state add nothing to choose from, so the same is true of every computation above a
dialogue.

* `Dialogue.says_unique`: two ways of a dialogue that lie within one history are the same.
* `Determined`: monads of which this is true, closed under layers of state.
-/

namespace TopicCipher

/-- What a computation gives, and where it ends, is determined by any later place. -/
class Determined (m : Type → Type) [Monad m] {P : Type} [Watched m P] : Prop where
  determined {α : Type} {x : m α} {s t u v : P} {a b : α} :
    Gives x s a t → Gives x s b u → Later m t v → Later m u v → a = b ∧ t = u

export Determined (determined)

instance {m : Type → Type} [Monad m] {P σ : Type} [Watched m P] [Determined m] :
    Determined (StateT σ m) where
  determined := by
    rintro α x ⟨s, p⟩ ⟨t, q⟩ ⟨u, r⟩ v a b hfirst hsecond hq hr
    obtain ⟨hends, rfl⟩ := determined (m := m) hfirst hsecond hq hr
    obtain ⟨rfl, rfl⟩ := Prod.mk.inj hends
    exact ⟨rfl, rfl⟩

namespace Dialogue

variable {Q : Type} {A : Q → Type} {α : Type}

/-- **Two ways of a dialogue that lie within one history are the same.** -/
theorem says_unique {x : Dialogue Q A α} {first second rest others : List (Exchange Q A)} {a b : α}
    (hfirst : Says x first a) (hsecond : Says x second b)
    (hhistory : first ++ rest = second ++ others) : first = second ∧ a = b := by
  induction hfirst generalizing second with
  | done a =>
    obtain ⟨rfl, rfl⟩ := says_done_iff.mp hsecond
    exact ⟨rfl, rfl⟩
  | ask answer _ ih =>
    obtain ⟨other, tail, rfl, htail⟩ := says_ask_iff.mp hsecond
    obtain ⟨hsame, htails⟩ := List.cons.inj hhistory
    obtain rfl : answer = other := eq_of_heq (Exchange.mk.inj hsame).2
    obtain ⟨rfl, rfl⟩ := ih htail htails
    exact ⟨rfl, rfl⟩

instance : Determined (Dialogue Q A) where
  determined := by
    rintro α x s _ _ v a b ⟨first, rfl, hfirst⟩ ⟨second, rfl, hsecond⟩ ⟨rest, hrest⟩
      ⟨others, hothers⟩
    have hhistory : first ++ rest = second ++ others := by
      rw [← hrest, List.append_assoc, List.append_assoc] at hothers
      exact (List.append_cancel_left hothers).symm
    obtain ⟨rfl, rfl⟩ := says_unique hfirst hsecond hhistory
    exact ⟨rfl, rfl⟩

end Dialogue

end TopicCipher
