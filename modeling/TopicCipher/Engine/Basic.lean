import TopicCipher.Engine.Slots
import TopicCipher.Envelope.Basic
import TopicCipher.Error
import TopicCipher.Json.Reader
import TopicCipher.KeySource
import TopicCipher.Timing
import TopicCipher.TopicKey

/-!
# The engine

The engine encrypts payloads under the current key of their topic and decrypts them under the key
that their envelope names.  A topic without a key is not encrypted: its payloads pass through.

Keys are kept in process for a while, and so is the knowledge that a topic has none.  Each
operation reads the clock once, and asks its source of keys at most once.  A lookup that fails
leaves nothing behind.
-/

namespace TopicCipher

/-- The settings of an engine. -/
structure EngineOptions where
  /-- How long keys are kept, in seconds. -/
  ttlSeconds : Nat
  /-- The greatest random extra time, in seconds. -/
  maxJitterSeconds : Nat
  deriving DecidableEq, Repr

namespace EngineOptions

/-- The settings when nothing is configured. -/
def standard : EngineOptions := ⟨600, defaultMaxJitter⟩

/-- The settings that a JSON value stands for. -/
def ofJson? (j : Json) : Option EngineOptions :=
  match j.record? ["keyCacheTtlSecs", "maxJitterSecs"] 0 with
  | some [ttl, maxJitter] => do
    some
      { ttlSeconds := ← Json.withDefault standard.ttlSeconds Json.word64? ttl
        maxJitterSeconds := ← Json.withDefault standard.maxJitterSeconds Json.word64? maxJitter }
  | _ => none

/-- The settings in a text. -/
def ofText? (text : String) : Option EngineOptions := (Json.ofText? text).bind ofJson?

/-- How long keys are kept. -/
def ttl (o : EngineOptions) : Span := .ofSeconds o.ttlSeconds

/-- The greatest random extra time. -/
def maxJitter (o : EngineOptions) : Span := .ofSeconds o.maxJitterSeconds

end EngineOptions

namespace Engine

/-- A key to encrypt under, with what goes into the envelope. -/
structure ActiveKey where
  version : Version
  keyName : Option String
  key : TopicKey
  deriving DecidableEq

/-- Something that is kept until an expiry. -/
structure Kept (α : Type) where
  value : α
  expiresAt : Instant

/-- The value, while it is kept. -/
def Kept.live? (k : Kept α) (now : Instant) : Option α :=
  if now < k.expiresAt then some k.value else none

/-- What names an old key: topic, version and key name. -/
abbrev OldKey := String × Version × Option String

/-- The keys that are kept. -/
structure Memory where
  encryption : Slots String (Kept (Option ActiveKey))
  decryption : Slots OldKey (Kept TopicKey)

/-- Nothing is kept. -/
def Memory.empty : Memory := ⟨.empty, .empty⟩

/-- The key of an answer of the source. -/
def ActiveKey.ofAnswer : Option KeyVersion → Except CryptoError (Option ActiveKey)
  | none => .ok none
  | some k => do
    let key ← TopicKey.ofText k.material
    .ok (some ⟨k.version, k.keyName, key⟩)

end Engine

/-- A source of keys with what is needed to use them. -/
structure Engine (m : Type → Type) where
  keys : KeySource m
  timing : Timing m
  /-- Draws a fresh initialization vector of twelve bytes. -/
  freshIv : m (Except String Bytes)
  options : EngineOptions

namespace Engine

variable {m : Type → Type} [Monad m]

/-- The expiry of a key that is kept from now on. -/
def expiry (e : Engine m) (now : Instant) : m Instant :=
  e.timing.expiry now e.options.ttl e.options.maxJitter

/-- The key that a topic is encrypted under now; none for a topic that is not encrypted. -/
def encryptionKey (e : Engine m) (topic : String) :
    StateT Memory m (Except EngineError (Option ActiveKey)) := do
  let now ← e.timing.now
  match ((← get).encryption.get? topic).bind (·.live? now) with
  | some key => return .ok key
  | none =>
    match ← e.keys.encryptionKey topic with
    | .error err => return .error (.key err)
    | .ok answer =>
      match ActiveKey.ofAnswer answer with
      | .error err => return .error (.crypto err)
      | .ok key =>
        let expiresAt ← e.expiry now
        modify fun s => { s with encryption := s.encryption.put topic ⟨key, expiresAt⟩ }
        return .ok key

/-- The key of the given version of a topic. -/
def decryptionKey (e : Engine m) (topic : String) (version : Version)
    (keyName : Option String) : StateT Memory m (Except EngineError TopicKey) := do
  let now ← e.timing.now
  let old : OldKey := (topic, version, keyName)
  match ((← get).decryption.get? old).bind (·.live? now) with
  | some key => return .ok key
  | none =>
    match ← e.keys.decryptionKey topic version keyName with
    | .error err => return .error (.key err)
    | .ok material =>
      match TopicKey.ofText material with
      | .error err => return .error (.crypto err)
      | .ok key =>
        let expiresAt ← e.expiry now
        modify fun s => { s with decryption := s.decryption.put old ⟨key, expiresAt⟩ }
        return .ok key

/-- The envelope of a plaintext under a key and a drawn initialization vector. -/
def sealedUnder (key : ActiveKey) (drawn : Except String Bytes) (plaintext : Bytes) :
    Except CryptoError Envelope := do
  let iv ← drawn.mapError CryptoError.randomness
  let payload ← key.key.encrypt iv plaintext
  .ok ⟨payload, some iv, key.version, key.keyName⟩

/-- Encrypts a payload of a topic. -/
def encrypt (e : Engine m) (topic : String) (plaintext : Bytes) :
    StateT Memory m (Except EngineError Envelope) := do
  match ← e.encryptionKey topic with
  | .error err => return .error err
  | .ok none => return .ok (.plaintext plaintext)
  | .ok (some key) =>
    let drawn ← e.freshIv
    return (sealedUnder key drawn plaintext).mapError .crypto

/-- Decrypts an envelope that was received on a topic. -/
def decrypt (e : Engine m) (topic : String) (envelope : Envelope) :
    StateT Memory m (Except EngineError Bytes) := do
  match envelope.cipherIv? with
  | none => return .ok envelope.payload
  | some iv =>
    match ← e.decryptionKey topic envelope.version envelope.keyName with
    | .error err => return .error err
    | .ok key => return (key.decrypt iv envelope.payload).mapError .crypto

/-- Forgets all keys that are kept. -/
def invalidate : StateT Memory m Unit := set Memory.empty

end Engine

end TopicCipher
