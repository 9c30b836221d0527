import TopicCipher.Time.Instant

/-!
# Expiry

A cached key lives for a fixed time plus a random extra, so that many instances do not all come
back to the secret store at once.  `expiryAfter` is the end of that life.  It never lies beyond
the last second of the year 9999, because a timestamp has four digits for the year.

The random extra is a whole number of milliseconds between zero and a bound.
-/

namespace TopicCipher

/-- The last expiry there is: the last second of the year 9999. -/
def latestExpiry : Instant := .ofSecond 253402300799

/-- The instant so long after now, or the latest expiry if that comes first or cannot be
counted. -/
def expiryAfter (now : Instant) (ttl extra : Span) : Instant :=
  match now.after? (ttl.add extra) with
  | some t => t.min latestExpiry
  | none => latestExpiry

namespace Jitter

/-- A fixed extra, cut off at the bound. -/
def fixed (extra bound : Span) : Span := extra.min bound

/-- The extra made from a draw of 64 random bits, none of which are there when the source of
randomness fails.  The milliseconds of the bound are counted in 64 bits, and the draw is reduced
to the numbers up to that count.  When the count is the greatest number of 64 bits there is no
number to divide by, and no extra. -/
def ofDraw? (draw : Option UInt64) (bound : Span) : Option Span :=
  let count := UInt64.ofNat bound.millis
  if count = 0 then some .zero
  else
    match draw with
    | none => some .zero
    | some bits => if count + 1 = 0 then none else some (.ofMillis (bits % (count + 1)).toNat)

end Jitter

/-- Moves a clock forward.  A span that is too long to step by does not move it. -/
def Instant.advance (t : Instant) (d : Span) : Instant := (t.after? d).getD t

end TopicCipher
