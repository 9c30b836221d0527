import TopicCipher.Engine.Fields
import TopicCipher.KeyCache.Source
import TopicCipher.StoreKeys

/-!
# The full stack

An engine over a key cache over the keys of a secret store.  The connection to the store is kept
as state below the engine's memory, because a lookup may open it.

Every part asks the monad `m` for what it needs: the store for secrets, the storage for the text
of the cache, two clocks for the time, and a source of randomness for initialization vectors.
-/

namespace TopicCipher

/-- The parts of a stack over a store whose open connections are values of type `C`. -/
structure Stack (m : Type → Type) (C : Type) where
  keys : StoreKeys m C
  storage : CacheStorage m
  cacheTiming : Timing m
  cacheOptions : CachingOptions
  engineTiming : Timing m
  freshIv : m (Except String Bytes)
  engineOptions : EngineOptions

namespace Stack

variable {m : Type → Type} [Monad m] {C : Type}

/-- The key cache of a stack. -/
def cache (k : Stack m C) : CachedKeys (StateT (Option C) m) where
  inner := k.keys.source
  storage := k.storage.lift
  timing := k.cacheTiming.lift
  options := k.cacheOptions

/-- The engine of a stack. -/
def engine (k : Stack m C) : Engine (StateT (Option C) m) where
  keys := k.cache.source
  timing := k.engineTiming.lift
  freshIv := liftM k.freshIv
  options := k.engineOptions

end Stack

end TopicCipher
