import TopicCipher.Json.Reader
import TopicCipher.KeyCache.Lines
import TopicCipher.KeyCache.Storage
import TopicCipher.Timing

/-!
# The key cache as a source of keys

`CachedKeys` puts a stored cache in front of another source of keys.  A lookup loads the whole
text, decides by its entries, asks the source behind if it has to, and writes the whole text
back if the entries changed.

The key to encrypt under is served from the cache while its entry is live.  After that the source
behind is asked, and if it suffers an outage the newest expired entry is served and lives on.
Two live entries of a topic contradict each other and are never chosen between.  Old keys are
served from the cache forever.

The text may grow only up to a limit; a longer one is replaced by an empty cache.  A storage that
cannot be read counts as empty, and one that cannot be written is ignored.
-/

namespace TopicCipher

/-- The settings of a key cache. -/
structure CachingOptions where
  /-- How long the key to encrypt under is served, in seconds. -/
  ttlSeconds : Nat
  /-- The greatest random extra time, in seconds. -/
  maxJitterSeconds : Nat
  /-- The greatest number of characters of the stored text. -/
  maxChars : Nat
  deriving DecidableEq, Repr

namespace CachingOptions

/-- The settings when nothing is configured. -/
def standard : CachingOptions := ⟨3600, defaultMaxJitter, 65536⟩

/-- The settings that a JSON value stands for. -/
def ofJson? (j : Json) : Option CachingOptions :=
  match j.record? ["encryptionKeyTtlSecs", "maxJitterSecs", "maxCacheChars"] 0 with
  | some [ttl, maxJitter, maxChars] => do
    some
      { ttlSeconds := ← Json.withDefault standard.ttlSeconds Json.word64? ttl
        maxJitterSeconds := ← Json.withDefault standard.maxJitterSeconds Json.word64? maxJitter
        maxChars := ← Json.withDefault standard.maxChars Json.word64? maxChars }
  | _ => none

/-- The settings in a text. -/
def ofText? (text : String) : Option CachingOptions := (Json.ofText? text).bind ofJson?

/-- How long the key to encrypt under is served. -/
def ttl (o : CachingOptions) : Span := .ofSeconds o.ttlSeconds

/-- The greatest random extra time. -/
def maxJitter (o : CachingOptions) : Span := .ofSeconds o.maxJitterSeconds

end CachingOptions

/-! ## Decisions -/

namespace KeyCache

/-- The live encryption entries of a topic. -/
def liveEntries (entries : List CacheEntry) (topic : String) (now : Instant) : List CacheEntry :=
  entries.filter fun e => e.topic = topic && e.isEncryption && !e.isExpiredAt now

/-- Holds if the first entry is not the better one of two to serve during an outage: it does not
have the greater version, or of equal versions the later expiry. -/
def isNotBetter (a b : CacheEntry) : Bool :=
  ((compare a.key.version b.key.version).then (compare a.expiresAt b.expiresAt)).isLE

/-- The position of the best encryption entry of a topic, the last one among equals. -/
def newest? (entries : List CacheEntry) (topic : String) : Option Nat :=
  ((entries.zipIdx.filter fun (e, _) => e.topic = topic && e.isEncryption).foldl
    (fun (best : Option (CacheEntry × Nat)) candidate =>
      match best with
      | none => some candidate
      | some current => if isNotBetter current.1 candidate.1 then some candidate else best)
    none).map (·.2)

/-- What a lookup of the key to encrypt under finds. -/
inductive EncryptionFind where
  | served (key : KeyVersion)
  | ambiguous (candidates : Nat)
  /-- The source behind has to be asked; the position is that of the best expired entry. -/
  | expired (newest : Option Nat)
  deriving DecidableEq

/-- Decides a lookup of the key to encrypt under. -/
def findEncryption (entries : List CacheEntry) (topic : String) (now : Instant) :
    EncryptionFind :=
  match liveEntries entries topic now with
  | [] => .expired (newest? entries topic)
  | [e] => .served e.key
  | many => .ambiguous many.length

/-- The entries with a new expiry for the one at a position. -/
def extend (entries : List CacheEntry) (position : Nat) (expiresAt : Instant) :
    List CacheEntry :=
  entries.modify position fun e => { e with expiresAt := some expiresAt }

/-- The entries after the source behind returned a key.  The best expired entry lives on if it
holds that key; otherwise the key gets an entry of its own. -/
def renew (entries : List CacheEntry) (newest : Option Nat) (topic : String) (key : KeyVersion)
    (expiresAt : Instant) : List CacheEntry :=
  match newest with
  | none => entries ++ [.forEncryption topic key expiresAt]
  | some position =>
    if (entries[position]?.any (·.holds key)) then extend entries position expiresAt
    else entries ++ [.forEncryption topic key expiresAt]

/-- What a lookup of an old key finds. -/
inductive DecryptionFind where
  | served (material : String)
  | ambiguous (candidates : Nat)
  | absent
  deriving DecidableEq

/-- Decides a lookup of an old key. -/
def findDecryption (entries : List CacheEntry) (topic : String) (version : Version)
    (keyName : Option String) : DecryptionFind :=
  match entries.filter fun e =>
      !e.isEncryption && e.topic = topic && e.key.version = version && e.key.keyName = keyName with
  | [] => .absent
  | first :: rest =>
    if rest.any (·.key.material ≠ first.key.material) then .ambiguous (rest.length + 1)
    else .served first.key.material

/-- The text that is stored for some entries. -/
def storedText (entries : List CacheEntry) (maxChars : Nat) : String :=
  let text := serialize entries
  if maxChars < text.length then empty else text

end KeyCache

/-! ## Lookups -/

/-- A stored cache in front of a source of keys. -/
structure CachedKeys (m : Type → Type) where
  inner : KeySource m
  storage : CacheStorage m
  timing : Timing m
  options : CachingOptions

namespace CachedKeys

variable {m : Type → Type} [Monad m]

/-- The stored entries. -/
def load (k : CachedKeys m) : m (List CacheEntry) := do
  match ← k.storage.read with
  | .ok (some text) => return KeyCache.parse text
  | .ok none => return []
  | .error _ => return []

/-- Stores a text, if that is possible. -/
def write (k : CachedKeys m) (text : String) : m Unit := do
  let _ ← k.storage.write text

/-- Stores entries. -/
def persist (k : CachedKeys m) (entries : List CacheEntry) : m Unit :=
  k.write (KeyCache.storedText entries k.options.maxChars)

/-- Forgets all entries, which is the way out of a contradiction between them. -/
def clear (k : CachedKeys m) : m Unit := k.write KeyCache.empty

/-- The expiry of an entry that begins to live now. -/
def expiry (k : CachedKeys m) (now : Instant) : m Instant :=
  k.timing.expiry now k.options.ttl k.options.maxJitter

/-- The key that a topic is encrypted under now. -/
def encryptionKey (k : CachedKeys m) (topic : String) :
    m (Except KeyError (Option KeyVersion)) := do
  let entries ← k.load
  let now ← k.timing.now
  match KeyCache.findEncryption entries topic now with
  | .served key => return .ok (some key)
  | .ambiguous candidates => return .error (.ambiguity topic candidates)
  | .expired newest =>
    match ← k.inner.encryptionKey topic with
    | .ok none => return .ok none
    | .ok (some key) =>
      let expiresAt ← k.expiry now
      k.persist (KeyCache.renew entries newest topic key expiresAt)
      return .ok (some key)
    | .error e =>
      match newest.bind fun position => entries[position]?.map (position, ·) with
      | some (position, stale) =>
        if e.isOutage then
          let expiresAt ← k.expiry now
          k.persist (KeyCache.extend entries position expiresAt)
          return .ok (some stale.key)
        else return .error e
      | none => return .error e

/-- The material of an older key of a topic. -/
def decryptionKey (k : CachedKeys m) (topic : String) (version : Version)
    (keyName : Option String) : m (Except KeyError String) := do
  let entries ← k.load
  match KeyCache.findDecryption entries topic version keyName with
  | .served material => return .ok material
  | .ambiguous candidates => return .error (.ambiguity topic candidates)
  | .absent =>
    match ← k.inner.decryptionKey topic version keyName with
    | .error e => return .error e
    | .ok material =>
      k.persist (entries ++ [.forDecryption topic version keyName material])
      return .ok material

/-- The cache as a source of keys. -/
def source (k : CachedKeys m) : KeySource m where
  encryptionKey := k.encryptionKey
  decryptionKey := k.decryptionKey

end CachedKeys

end TopicCipher
