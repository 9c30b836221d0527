import TopicCipher.KeySource
import TopicCipher.Text.Blank
import TopicCipher.Time.Instant

/-!
# Entries of the key cache

An entry keeps one key of one topic.  An entry with an expiry is an encryption entry: the key
that the topic is encrypted under until then.  An entry without one is a decryption entry: an old
key, which stays what it is forever.

Material is stored without the blanks around it.  `order` is the order in which entries are
written down; entries that compare equal in it are equal.
-/

namespace TopicCipher

/-- A key of a topic, with an expiry if it is the key to encrypt under. -/
structure CacheEntry where
  topic : String
  key : KeyVersion
  expiresAt : Option Instant
  deriving DecidableEq

namespace CacheEntry

/-- The entry of the key that a topic is encrypted under. -/
def forEncryption (topic : String) (key : KeyVersion) (expiresAt : Instant) : CacheEntry :=
  ⟨topic, { key with material := Text.trim key.material }, some expiresAt⟩

/-- The entry of an old key. -/
def forDecryption (topic : String) (version : Version) (keyName : Option String)
    (material : String) : CacheEntry :=
  ⟨topic, ⟨version, keyName, Text.trim material⟩, none⟩

/-- Holds of entries with an expiry. -/
def isEncryption (e : CacheEntry) : Bool := e.expiresAt.isSome

/-- Holds of encryption entries whose expiry has come. -/
def isExpiredAt (e : CacheEntry) (now : Instant) : Bool := e.expiresAt.any (· ≤ now)

/-- Holds if the entry has the version, the key name and, up to blanks, the material of a key. -/
def holds (e : CacheEntry) (key : KeyVersion) : Bool :=
  e.key == { key with material := Text.trim key.material }

/-- The order in which entries are written: by topic, newer versions first, then by key name and
expiry with missing ones first, then by material. -/
def order (a b : CacheEntry) : Ordering :=
  (compare a.topic b.topic).then <|
  (compare b.key.version a.key.version).then <|
  (compare a.key.keyName b.key.keyName).then <|
  (compare a.expiresAt b.expiresAt).then <|
  compare a.key.material b.key.material

end CacheEntry

end TopicCipher
