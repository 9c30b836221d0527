import TopicCipher.Engine.Fields
import TopicCipher.Proofs.Results
import TopicCipher.Proofs.Watched

/-!
# What an engine can do

Each operation of an engine is described once, by all the ways in which it can go: what it asked,
what it was answered, what it gives and what it then keeps in memory.  Everything else about an
engine is derived from these descriptions, never from the text of an operation.

* `gives_lookup`, with `gives_encryptionKey` and `gives_decryptionKey`: the two lookups.
* `gives_encrypt`, `gives_decrypt`: the two operations on payloads.
* `gives_encodeField`, `gives_decodeField`: the two operations on fields.
-/

namespace TopicCipher.Engine

variable {m : Type → Type} [Monad m] {P : Type} [Watched m P]

/-! ## Lookups

The two lookups of an engine differ only in the slot that they look into and fill, in whom they ask,
and in what they make of an answer.  So they are two cases of one lookup, which is described here.
-/

/-- A kind of lookup: its slot, whom it asks, and what it makes of an answer. -/
structure Lookup (m : Type → Type) (α κ : Type) where
  slot : Memory → Option (Kept κ)
  fill : Memory → Kept κ → Memory
  ask : m (Except KeyError α)
  make : α → Except CryptoError κ

/-- The lookup of the key that a topic is encrypted under. -/
def encryptionLookup (e : Engine m) (topic : String) :
    Lookup m (Option KeyVersion) (Option ActiveKey) where
  slot memory := memory.encryption.get? topic
  fill memory kept := { memory with encryption := memory.encryption.put topic kept }
  ask := e.keys.encryptionKey topic
  make := ActiveKey.ofAnswer

/-- The lookup of an old key. -/
def decryptionLookup (e : Engine m) (topic : String) (version : Version)
    (keyName : Option String) : Lookup m String TopicKey where
  slot memory := memory.decryption.get? (topic, version, keyName)
  fill memory kept :=
    { memory with decryption := memory.decryption.put (topic, version, keyName) kept }
  ask := e.keys.decryptionKey topic version keyName
  make := TopicKey.ofText

variable {α κ : Type}

/-- Looks into the slot first, and asks if nothing live is there. -/
def lookup (e : Engine m) (l : Lookup m α κ) : StateT Memory m (Except EngineError κ) := do
  let now ← e.timing.now
  match (l.slot (← get)).bind (·.live? now) with
  | some key => return .ok key
  | none =>
    match ← l.ask with
    | .error err => return .error (.key err)
    | .ok answer =>
      match l.make answer with
      | .error err => return .error (.crypto err)
      | .ok key =>
        let expiresAt ← e.expiry now
        modify fun memory => l.fill memory ⟨key, expiresAt⟩
        return .ok key

theorem encryptionKey_eq_lookup (e : Engine m) (topic : String) :
    e.encryptionKey topic = e.lookup (e.encryptionLookup topic) := by
  rw [encryptionKey, lookup]
  refine bind_congr fun now => bind_congr fun memory => ?_
  simp only [encryptionLookup]
  cases (memory.encryption.get? topic).bind (·.live? now) with
  | some key => rfl
  | none =>
    refine bind_congr fun answer => ?_
    cases answer with
    | error err => rfl
    | ok answer =>
      dsimp only
      cases ActiveKey.ofAnswer answer <;> rfl

theorem decryptionKey_eq_lookup (e : Engine m) (topic : String) (version : Version)
    (keyName : Option String) :
    e.decryptionKey topic version keyName =
      e.lookup (e.decryptionLookup topic version keyName) := by
  rw [decryptionKey, lookup]
  refine bind_congr fun now => bind_congr fun memory => ?_
  simp only [decryptionLookup]
  cases (memory.decryption.get? (topic, version, keyName)).bind (·.live? now) with
  | some key => rfl
  | none =>
    refine bind_congr fun answer => ?_
    cases answer with
    | error err => rfl
    | ok material =>
      dsimp only
      cases TopicKey.ofText material <;> rfl

/-- The ways in which a lookup can go. -/
inductive LookedUp (e : Engine m) (l : Lookup m α κ) :
    Memory × P → Except EngineError κ → Memory × P → Prop where
  /-- The key is in memory. -/
  | kept {memory : Memory} {p q : P} {now : Instant} {key : κ}
      (hnow : Gives e.timing.now p now q)
      (hkept : (l.slot memory).bind (·.live? now) = some key) :
      LookedUp e l (memory, p) (.ok key) (memory, q)
  /-- The source of keys fails. -/
  | refused {memory : Memory} {p q t : P} {now : Instant} {err : KeyError}
      (hnow : Gives e.timing.now p now q)
      (hkept : (l.slot memory).bind (·.live? now) = none)
      (hasked : Gives l.ask q (.error err) t) :
      LookedUp e l (memory, p) (.error (.key err)) (memory, t)
  /-- The source of keys answers with something that is no key. -/
  | unusable {memory : Memory} {p q t : P} {now : Instant} {answer : α} {err : CryptoError}
      (hnow : Gives e.timing.now p now q)
      (hkept : (l.slot memory).bind (·.live? now) = none)
      (hasked : Gives l.ask q (.ok answer) t)
      (hmade : l.make answer = .error err) :
      LookedUp e l (memory, p) (.error (.crypto err)) (memory, t)
  /-- The source of keys answers, and the key is kept. -/
  | fetched {memory : Memory} {p q t u : P} {now expiresAt : Instant} {answer : α} {key : κ}
      (hnow : Gives e.timing.now p now q)
      (hkept : (l.slot memory).bind (·.live? now) = none)
      (hasked : Gives l.ask q (.ok answer) t)
      (hmade : l.make answer = .ok key)
      (hexpiry : Gives (e.expiry now) t expiresAt u) :
      LookedUp e l (memory, p) (.ok key) (l.fill memory ⟨key, expiresAt⟩, u)

/-- A lookup goes in one of the four ways. -/
theorem gives_lookup {e : Engine m} {l : Lookup m α κ} {s t : Memory × P}
    {r : Except EngineError κ} : Gives (e.lookup l) s r t ↔ LookedUp e l s r t := by
  obtain ⟨memory, p⟩ := s
  constructor
  · intro h
    simp only [lookup, gives_bind, gives_lift, gives_get] at h
    obtain ⟨now, ⟨_, q⟩, ⟨rfl, hnow⟩, _, _, ⟨rfl, rfl⟩, h⟩ := h
    split at h
    next key hkept =>
      obtain ⟨rfl, rfl⟩ := gives_pure.mp h
      exact .kept hnow hkept
    next hkept =>
      obtain ⟨answer, ⟨_, t'⟩, hasked, h⟩ := gives_bind.mp h
      obtain ⟨rfl, hasked⟩ := gives_lift.mp hasked
      cases answer with
      | error err =>
        obtain ⟨rfl, rfl⟩ := gives_pure.mp h
        exact .refused hnow hkept hasked
      | ok answer =>
        cases hmade : l.make answer with
        | error err =>
          simp only [hmade, gives_pure] at h
          obtain ⟨rfl, rfl⟩ := h
          exact .unusable hnow hkept hasked hmade
        | ok key =>
          simp only [hmade, gives_bind, gives_lift, gives_modify, gives_pure] at h
          obtain ⟨expiresAt, ⟨_, u⟩, ⟨rfl, hexpiry⟩, _, _, rfl, rfl, rfl⟩ := h
          exact .fetched hnow hkept hasked hmade hexpiry
  · rintro (⟨hnow, hkept⟩ | ⟨hnow, hkept, hasked⟩ | ⟨hnow, hkept, hasked, hmade⟩ |
      ⟨hnow, hkept, hasked, hmade, hexpiry⟩)
    all_goals
      refine gives_bind.mpr ⟨_, _, gives_lift_of memory hnow, ?_⟩
      refine gives_bind.mpr ⟨memory, _, gives_get.mpr ⟨rfl, rfl⟩, ?_⟩
      simp only [hkept]
    · exact gives_pure.mpr ⟨rfl, rfl⟩
    · exact gives_bind.mpr ⟨_, _, gives_lift_of memory hasked, gives_pure.mpr ⟨rfl, rfl⟩⟩
    · refine gives_bind.mpr ⟨_, _, gives_lift_of memory hasked, ?_⟩
      simp only [hmade]
      exact gives_pure.mpr ⟨rfl, rfl⟩
    · refine gives_bind.mpr ⟨_, _, gives_lift_of memory hasked, ?_⟩
      simp only [hmade]
      exact gives_bind.mpr ⟨_, _, gives_lift_of memory hexpiry,
        gives_bind.mpr ⟨(), _, gives_modify.mpr rfl, gives_pure.mpr ⟨rfl, rfl⟩⟩⟩

theorem gives_encryptionKey {e : Engine m} {topic : String} {s t : Memory × P}
    {r : Except EngineError (Option ActiveKey)} :
    Gives (e.encryptionKey topic) s r t ↔ LookedUp e (e.encryptionLookup topic) s r t := by
  rw [encryptionKey_eq_lookup, gives_lookup]

theorem gives_decryptionKey {e : Engine m} {topic : String} {version : Version}
    {keyName : Option String} {s t : Memory × P} {r : Except EngineError TopicKey} :
    Gives (e.decryptionKey topic version keyName) s r t ↔
      LookedUp e (e.decryptionLookup topic version keyName) s r t := by
  rw [decryptionKey_eq_lookup, gives_lookup]

/-! ## Payloads -/

/-- An envelope is sealed under a key exactly if a vector was drawn and the key seals under it. -/
theorem sealedUnder_eq_ok_iff {key : ActiveKey} {drawn : Except String Bytes} {plaintext : Bytes}
    {envelope : Envelope} :
    sealedUnder key drawn plaintext = .ok envelope ↔
      ∃ iv payload, drawn = .ok iv ∧ key.key.encrypt iv plaintext = .ok payload ∧
        envelope = ⟨payload, some iv, key.version, key.keyName⟩ := by
  simp only [sealedUnder, bind_eq_ok_iff, mapError_eq_ok_iff, Except.ok.injEq]
  constructor
  · rintro ⟨iv, hdrawn, payload, hpayload, rfl⟩
    exact ⟨iv, payload, hdrawn, hpayload, rfl⟩
  · rintro ⟨iv, payload, hdrawn, hpayload, rfl⟩
    exact ⟨iv, hdrawn, payload, hpayload, rfl⟩

/-- The ways in which an encryption can go. -/
inductive Encryption (e : Engine m) (topic : String) (plaintext : Bytes) :
    Memory × P → Except EngineError Envelope → Memory × P → Prop where
  /-- There is no telling what the key is. -/
  | failed {s t : Memory × P} {err : EngineError}
      (hkey : Gives (e.encryptionKey topic) s (.error err) t) :
      Encryption e topic plaintext s (.error err) t
  /-- The topic is not encrypted. -/
  | passed {s t : Memory × P} (hkey : Gives (e.encryptionKey topic) s (.ok none) t) :
      Encryption e topic plaintext s (.ok (.plaintext plaintext)) t
  /-- The payload is sealed under the key, as far as that works. -/
  | sealed {s : Memory × P} {memory : Memory} {p q : P} {key : ActiveKey}
      {drawn : Except String Bytes}
      (hkey : Gives (e.encryptionKey topic) s (.ok (some key)) (memory, p))
      (hdrawn : Gives e.freshIv p drawn q) :
      Encryption e topic plaintext s ((sealedUnder key drawn plaintext).mapError .crypto)
        (memory, q)

theorem gives_encrypt {e : Engine m} {topic : String} {plaintext : Bytes} {s t : Memory × P}
    {r : Except EngineError Envelope} :
    Gives (e.encrypt topic plaintext) s r t ↔ Encryption e topic plaintext s r t := by
  constructor
  · intro h
    obtain ⟨found, ⟨memory, p⟩, hkey, h⟩ := gives_bind.mp h
    rcases found with err | _ | key
    · obtain ⟨rfl, rfl⟩ := gives_pure.mp h
      exact .failed hkey
    · obtain ⟨rfl, rfl⟩ := gives_pure.mp h
      exact .passed hkey
    · simp only [gives_bind, gives_lift, gives_pure] at h
      obtain ⟨drawn, ⟨_, q⟩, ⟨rfl, hdrawn⟩, rfl, rfl⟩ := h
      exact .sealed hkey hdrawn
  · rintro (hkey | hkey | ⟨hkey, hdrawn⟩)
    · exact gives_bind.mpr ⟨_, _, hkey, gives_pure.mpr ⟨rfl, rfl⟩⟩
    · exact gives_bind.mpr ⟨_, _, hkey, gives_pure.mpr ⟨rfl, rfl⟩⟩
    · exact gives_bind.mpr ⟨_, _, hkey, gives_bind.mpr ⟨_, _, gives_lift_of _ hdrawn,
        gives_pure.mpr ⟨rfl, rfl⟩⟩⟩

/-- The ways in which a decryption can go. -/
inductive Decryption (e : Engine m) (topic : String) (envelope : Envelope) :
    Memory × P → Except EngineError Bytes → Memory × P → Prop where
  /-- The envelope counts as plaintext. -/
  | passed {s : Memory × P} (hiv : envelope.cipherIv? = none) :
      Decryption e topic envelope s (.ok envelope.payload) s
  /-- There is no key. -/
  | failed {s t : Memory × P} {iv : Bytes} {err : EngineError}
      (hiv : envelope.cipherIv? = some iv)
      (hkey : Gives (e.decryptionKey topic envelope.version envelope.keyName) s (.error err) t) :
      Decryption e topic envelope s (.error err) t
  /-- The payload is opened with the key, as far as that works. -/
  | opened {s t : Memory × P} {iv : Bytes} {key : TopicKey}
      (hiv : envelope.cipherIv? = some iv)
      (hkey : Gives (e.decryptionKey topic envelope.version envelope.keyName) s (.ok key) t) :
      Decryption e topic envelope s ((key.decrypt iv envelope.payload).mapError .crypto) t

theorem gives_decrypt {e : Engine m} {topic : String} {envelope : Envelope} {s t : Memory × P}
    {r : Except EngineError Bytes} :
    Gives (e.decrypt topic envelope) s r t ↔ Decryption e topic envelope s r t := by
  constructor
  · intro h
    rw [decrypt] at h
    split at h
    next hiv =>
      obtain ⟨rfl, rfl⟩ := gives_pure.mp h
      exact .passed hiv
    next iv hiv =>
      obtain ⟨found, u, hkey, h⟩ := gives_bind.mp h
      cases found with
      | error err =>
        obtain ⟨rfl, rfl⟩ := gives_pure.mp h
        exact .failed hiv hkey
      | ok key =>
        obtain ⟨rfl, rfl⟩ := gives_pure.mp h
        exact .opened hiv hkey
  · rintro (hiv | ⟨hiv, hkey⟩ | ⟨hiv, hkey⟩) <;> rw [decrypt, hiv]
    · exact gives_pure.mpr ⟨rfl, rfl⟩
    · exact gives_bind.mpr ⟨_, _, hkey, gives_pure.mpr ⟨rfl, rfl⟩⟩
    · exact gives_bind.mpr ⟨_, _, hkey, gives_pure.mpr ⟨rfl, rfl⟩⟩

/-! ## Fields -/

/-- Encoding a value encrypts its text and writes the envelope down. -/
theorem gives_encodeField {e : Engine m} {topic value : String} {s t : Memory × P}
    {r : Except EngineError (Option String)} :
    Gives (e.encodeField topic (some value)) s r t ↔
      ∃ sealed, Gives (e.encrypt topic (Bytes.ofText value)) s sealed t ∧
        r = sealed.bind fun envelope => ((Field.encode envelope).map some).mapError .crypto := by
  constructor
  · intro h
    obtain ⟨sealed, u, hsealed, h⟩ := gives_bind.mp h
    refine ⟨sealed, ?_⟩
    cases sealed <;> obtain ⟨rfl, rfl⟩ := gives_pure.mp h <;> exact ⟨hsealed, rfl⟩
  · rintro ⟨sealed, hsealed, rfl⟩
    refine gives_bind.mpr ⟨sealed, t, hsealed, ?_⟩
    cases sealed <;> exact gives_pure.mpr ⟨rfl, rfl⟩

/-- A value without the mark is handed back as it is. -/
theorem gives_decodeField_of_not_isMarked {e : Engine m} {topic value : String}
    (hvalue : Field.isMarked value = false) {s t : Memory × P}
    {r : Except EngineError (Option String)} :
    Gives (e.decodeField topic (some value)) s r t ↔ r = .ok (some value) ∧ t = s := by
  simp only [decodeField, hvalue, Bool.false_eq_true, if_false, gives_pure]

/-- A value with the mark is read as an envelope, and the envelope is decrypted. -/
theorem gives_decodeField_of_isMarked {e : Engine m} {topic value : String}
    (hvalue : Field.isMarked value = true) {s t : Memory × P}
    {r : Except EngineError (Option String)} :
    Gives (e.decodeField topic (some value)) s r t ↔
      (∃ err, Field.decode value = .error err ∧ r = .error (.crypto err) ∧ t = s) ∨
      ∃ envelope opened, Field.decode value = .ok envelope ∧
        Gives (e.decrypt topic envelope) s opened t ∧
        r = opened.bind fun plaintext => ((fieldText plaintext).map some).mapError .crypto := by
  simp only [decodeField, hvalue, if_true]
  cases Field.decode value with
  | error err =>
    simp only [gives_pure, Except.error.injEq, reduceCtorEq, false_and, exists_false, or_false,
      exists_eq_left']
  | ok envelope =>
    simp only [gives_bind, reduceCtorEq, false_and, exists_false, false_or, Except.ok.injEq,
      exists_and_left, exists_eq_left']
    constructor
    · rintro ⟨opened, u, hopened, h⟩
      refine ⟨opened, ?_⟩
      cases opened <;> obtain ⟨rfl, rfl⟩ := gives_pure.mp h <;> exact ⟨hopened, rfl⟩
    · rintro ⟨opened, hopened, rfl⟩
      refine ⟨opened, t, hopened, ?_⟩
      cases opened <;> exact gives_pure.mpr ⟨rfl, rfl⟩

end TopicCipher.Engine
