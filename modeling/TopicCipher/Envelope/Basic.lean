import TopicCipher.Bytes
import TopicCipher.Version

/-!
# Envelopes

An envelope is a payload with what is needed to decrypt it.  Whether it is encrypted is not
stored but follows from its parts: it carries a nonempty initialization vector and names a key
version.  An envelope of any other shape is plaintext and its payload is handed back as it is.
-/

namespace TopicCipher

/-- A payload with its initialization vector, the version of its key and the name of the attribute
that holds the key in the secret store. -/
structure Envelope where
  payload : Bytes
  iv : Option Bytes
  version : Version
  keyName : Option String
  deriving DecidableEq, Repr

namespace Envelope

/-- The envelope of a payload that is not encrypted. -/
def plaintext (payload : Bytes) : Envelope := ⟨payload, none, 0, none⟩

/-- The initialization vector of an encrypted envelope; none for plaintext. -/
def cipherIv? (e : Envelope) : Option Bytes :=
  e.iv.filter fun iv => !iv.isEmpty && 0 < e.version

/-- Holds of envelopes with a nonempty initialization vector and a positive key version. -/
def isEncrypted (e : Envelope) : Bool := e.cipherIv?.isSome

@[simp] theorem cipherIv?_plaintext (payload : Bytes) : (plaintext payload).cipherIv? = none := rfl

@[simp] theorem isEncrypted_plaintext (payload : Bytes) :
    (plaintext payload).isEncrypted = false := rfl

theorem cipherIv?_eq_some_iff {e : Envelope} {iv : Bytes} :
    e.cipherIv? = some iv ↔ e.iv = some iv ∧ iv ≠ [] ∧ 0 < e.version := by
  simp [cipherIv?, Option.filter_eq_some_iff]

end Envelope

end TopicCipher
