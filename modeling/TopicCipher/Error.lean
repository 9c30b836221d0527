import TopicCipher.KeyError

/-!
# Failures of the engine

Encryption and decryption fail because a key lookup fails or because the cipher or a format does.
Callers that do not want to look at the cause look at the kind.
-/

namespace TopicCipher

/-- A failure of encryption or decryption. -/
inductive EngineError where
  | key (error : KeyError)
  | crypto (error : CryptoError)
  deriving DecidableEq, Repr

/-- The kinds of failures. -/
inductive ErrorKind where
  | configuration
  | format
  | crypto
  | store
  | ambiguity
  deriving DecidableEq, Repr

/-- The kind of a cryptographic failure: what was never going to work is a format failure. -/
def CryptoError.kind : CryptoError → ErrorKind
  | .field _ => .format
  | .headers _ => .format
  | .ivLength .. => .format
  | .keyLength .. => .format
  | .keyEncoding _ => .format
  | .authentication => .crypto
  | .encryption _ => .crypto
  | .randomness _ => .crypto

/-- The kind of a failed lookup. -/
def KeyError.kind : KeyError → ErrorKind
  | .configuration _ => .configuration
  | .format _ => .format
  | .store _ => .store
  | .ambiguity .. => .ambiguity
  | .crypto error => error.kind

namespace EngineError

/-- The kind of a failure. -/
def kind : EngineError → ErrorKind
  | .key error => error.kind
  | .crypto error => error.kind

/-- The wording of a failure, which is that of its cause. -/
def message : EngineError → String
  | .key error => error.message
  | .crypto error => error.message

end EngineError

end TopicCipher
