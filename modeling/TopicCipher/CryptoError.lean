import TopicCipher.Version

/-!
# Cryptographic failures

A failure is a cause; its wording is `CryptoError.message` and nothing decides anything by the
wording.  Faults of a field and of message headers have causes of their own, because they are
found by rules of their own; `other` carries the words of somebody else's reader.
-/

namespace TopicCipher

/-- What is wrong with an encrypted field. -/
inductive FieldFault where
  | segmentCount (got : Nat)
  | version (text : String)
  | versionZero
  | iv
  | ciphertext
  /-- An unencrypted payload that is no text cannot be a field. -/
  | payloadNotText
  /-- A decrypted payload that is no text cannot have been a field. -/
  | plaintextNotText
  | other (text : String)
  deriving DecidableEq, Repr

/-- What is wrong with the encryption headers of a message. -/
inductive HeaderFault where
  | notText (header : String)
  | version (header text : String)
  | descriptorShape (header : String)
  | descriptorCount (header : String) (got : Nat)
  | descriptorKeys (header : String)
  | descriptorVersion (text : String)
  | descriptorWithoutVersion
  | ivWithoutVersion (ivHeader : String)
  | versionWithoutIv (version : Version) (ivHeader : String)
  | other (text : String)
  deriving DecidableEq, Repr

/-- A failure of encryption, decryption or of the formats around them. -/
inductive CryptoError where
  | keyLength (expected got : Nat)
  | ivLength (expected got : Nat)
  | keyEncoding (reason : String)
  | encryption (reason : String)
  | authentication
  | field (fault : FieldFault)
  | headers (fault : HeaderFault)
  | randomness (reason : String)
  deriving DecidableEq, Repr

/-- What the base64 reader says of every text it rejects. -/
def Base64.rejection : String := "invalid Base64 encoding"

/-- The wording of a field's fault. -/
def FieldFault.message : FieldFault → String
  | .segmentCount got => s!"expected 4 segments, got {got}"
  | .version text => s!"invalid version \"{text}\""
  | .versionZero => "version must be positive"
  | .iv => s!"invalid IV: {Base64.rejection}"
  | .ciphertext => s!"invalid ciphertext: {Base64.rejection}"
  | .payloadNotText => "plaintext is not UTF-8: invalid byte sequence"
  | .plaintextNotText => "decrypted field is not valid UTF-8"
  | .other text => text

/-- The wording of a fault of the headers. -/
def HeaderFault.message : HeaderFault → String
  | .notText header => s!"{header} is not UTF-8"
  | .version header text => s!"invalid {header} \"{text}\""
  | .descriptorShape header => s!"{header}: not a list of cipher descriptors"
  | .descriptorCount header got => s!"{header} must hold exactly one descriptor, got {got}"
  | .descriptorKeys header => s!"{header} descriptor must be keyed by a single attribute"
  | .descriptorVersion text => s!"invalid cipherVersionString \"{text}\""
  | .descriptorWithoutVersion => "descriptor has no cipher version"
  | .ivWithoutVersion ivHeader => s!"{ivHeader} present without a key version"
  | .versionWithoutIv v ivHeader => s!"key version {v.text} present without {ivHeader}"
  | .other text => text

namespace CryptoError

/-- The wording of a failure. -/
def message : CryptoError → String
  | .keyLength expected got => s!"Invalid key length: expected {expected} bytes, got {got}"
  | .ivLength expected got => s!"Invalid IV length: expected {expected} bytes, got {got}"
  | .keyEncoding reason => s!"Invalid key encoding: {reason}"
  | .encryption reason => s!"Encryption failed: {reason}"
  | .authentication => "Decryption failed: ciphertext is not authentic under this key"
  | .field fault => s!"Malformed field envelope: {fault.message}"
  | .headers fault => s!"Malformed envelope headers: {fault.message}"
  | .randomness reason => s!"Random number generation failed: {reason}"

/-- Holds of faults in a field or in headers, as opposed to failures of keys and ciphers. -/
def isFormatError : CryptoError → Bool
  | .field _ => true
  | .headers _ => true
  | _ => false

end CryptoError

end TopicCipher
