/-!
# Spans of time

A span is a nonnegative amount of time in whole nanoseconds, below `2 ^ 64` seconds.  Adding two
spans stops at the longest one.  A clock can only be moved by a span of fewer than `2 ^ 63`
milliseconds; `isStep` tells those apart.
-/

namespace TopicCipher

/-- The nanoseconds of a second. -/
abbrev nanosPerSecond : Nat := 1000000000

/-- The nanoseconds of a millisecond. -/
abbrev nanosPerMilli : Nat := 1000000

/-- A nonnegative amount of time. -/
structure Span where
  nanos : Nat
  nanos_lt : nanos < UInt64.size * nanosPerSecond
  deriving DecidableEq

namespace Span

/-- No time at all. -/
def zero : Span := ⟨0, by decide⟩

/-- The longest span. -/
def longest : Span := ⟨UInt64.size * nanosPerSecond - 1, by decide⟩

/-- The span of so many nanoseconds, or the longest one. -/
def ofNanos (n : Nat) : Span :=
  if h : n < UInt64.size * nanosPerSecond then ⟨n, h⟩ else longest

/-- The span of so many seconds, or the longest one. -/
def ofSeconds (n : Nat) : Span := ofNanos (n * nanosPerSecond)

/-- The span of so many milliseconds, or the longest one. -/
def ofMillis (n : Nat) : Span := ofNanos (n * nanosPerMilli)

/-- The whole seconds of a span. -/
def seconds (d : Span) : Nat := d.nanos / nanosPerSecond

/-- The nanoseconds beyond the whole seconds. -/
def subsecond (d : Span) : Nat := d.nanos % nanosPerSecond

/-- The whole milliseconds of a span. -/
def millis (d : Span) : Nat := d.nanos / nanosPerMilli

/-- The sum of two spans, or the longest one. -/
def add (d e : Span) : Span := ofNanos (d.nanos + e.nanos)

/-- The shorter of two spans. -/
def min (d e : Span) : Span := if d.nanos ≤ e.nanos then d else e

/-- The milliseconds of the longest span that a clock can be moved by. -/
def maxStepMillis : Nat := 9223372036854775807

/-- Holds of spans that a clock can be moved by. -/
def isStep (d : Span) : Bool := d.nanos ≤ maxStepMillis * nanosPerMilli

theorem nanos_ofNanos (n : Nat) :
    (ofNanos n).nanos = Nat.min n (UInt64.size * nanosPerSecond - 1) := by
  unfold ofNanos
  split
  · exact (Nat.min_eq_left (by show n ≤ _; omega)).symm
  · exact (Nat.min_eq_right (by show UInt64.size * nanosPerSecond - 1 ≤ n; omega)).symm

theorem nanos_min (d e : Span) : (d.min e).nanos = Nat.min d.nanos e.nanos := by
  unfold min
  split
  · exact (Nat.min_eq_left (by omega)).symm
  · exact (Nat.min_eq_right (by omega)).symm

end Span

end TopicCipher
