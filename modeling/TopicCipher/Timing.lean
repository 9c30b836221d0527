import TopicCipher.Time.Expiry

/-!
# Clocks and jitter

Whoever keeps keys for a while needs to know what time it is and how much random extra time to
add to a lifetime.
-/

namespace TopicCipher

/-- A clock and a source of random extra time. -/
structure Timing (m : Type → Type) where
  now : m Instant
  /-- An extra between zero and the bound. -/
  jitter (bound : Span) : m Span

/-- The same clock and jitter in a larger monad. -/
def Timing.lift {m n : Type → Type} [MonadLiftT m n] (t : Timing m) : Timing n where
  now := liftM t.now
  jitter bound := liftM (t.jitter bound)

/-- The expiry of something that begins to live now. -/
def Timing.expiry {m : Type → Type} [Monad m] (t : Timing m) (now : Instant) (ttl bound : Span) :
    m Instant := do
  return expiryAfter now ttl (← t.jitter bound)

/-- The greatest random extra when nothing else is configured, in seconds. -/
def defaultMaxJitter : Nat := 120

end TopicCipher
