import TopicCipher.Time.Span

/-!
# Instants

An instant is a second of the proleptic Gregorian timeline, counted from the start of 1970, and a
number of nanoseconds into it.  A leap second has no number of its own: it is the second before
it, entered for a second time, with one or two billion nanoseconds.  So instants are ordered by
second and then by nanosecond, and a leap second comes after all of its second and before the
next one.

Moving forward from inside a leap second stays inside it while there is room, and otherwise
counts from the same place in the second before it.
-/

namespace TopicCipher

/-- A point on the timeline. -/
structure Instant where
  second : Int
  nano : Nat
  nano_lt : nano < 2 * nanosPerSecond
  deriving DecidableEq

namespace Instant

instance : Ord Instant where
  compare a b := (compare a.second b.second).then (compare a.nano b.nano)

instance : LE Instant where
  le a b := a.second < b.second ∨ a.second = b.second ∧ a.nano ≤ b.nano

instance : LT Instant where
  lt a b := a.second < b.second ∨ a.second = b.second ∧ a.nano < b.nano

theorem le_def {a b : Instant} :
    a ≤ b ↔ a.second < b.second ∨ a.second = b.second ∧ a.nano ≤ b.nano := Iff.rfl

theorem lt_def {a b : Instant} :
    a < b ↔ a.second < b.second ∨ a.second = b.second ∧ a.nano < b.nano := Iff.rfl

instance (a b : Instant) : Decidable (a ≤ b) := inferInstanceAs (Decidable (_ ∨ _))

instance (a b : Instant) : Decidable (a < b) := inferInstanceAs (Decidable (_ ∨ _))

/-- The earlier of two instants. -/
def min (a b : Instant) : Instant := if a ≤ b then a else b

/-- An instant at the start of a second. -/
def ofSecond (second : Int) : Instant := ⟨second, 0, by decide⟩

/-- Holds of instants inside a leap second. -/
def isLeap (t : Instant) : Bool := nanosPerSecond ≤ t.nano

/-- The last instant of the calendar, at the end of the year 262142. -/
def last : Instant := ⟨8210266876799, 999999999, by decide⟩

/-- The number of nanoseconds since the start of 1970; a leap second counts as the second before
it. -/
def unixNanos (t : Instant) : Int := t.second * nanosPerSecond + (t.nano % nanosPerSecond : Nat)

/-- The instant with the given number of nanoseconds since the start of 1970. -/
def ofUnixNanos (n : Int) : Instant :=
  ⟨n / nanosPerSecond, (n % nanosPerSecond).toNat, by
    have := Int.emod_nonneg n (b := nanosPerSecond) (by decide)
    have := Int.emod_lt_of_pos n (b := nanosPerSecond) (by decide)
    omega⟩

/-- The instant a span later, wherever that is. -/
def add (t : Instant) (d : Span) : Instant :=
  if h : t.isLeap ∧ t.nano + d.nanos < 2 * nanosPerSecond then ⟨t.second, t.nano + d.nanos, h.2⟩
  else ofUnixNanos (t.unixNanos + d.nanos)

/-- The instant a span later, unless the span is too long for a step or leaves the calendar. -/
def after? (t : Instant) (d : Span) : Option Instant :=
  if d.isStep then
    let u := t.add d
    if u.second ≤ last.second then some u else none
  else none

end Instant

end TopicCipher
