import TopicCipher.Base64
import TopicCipher.CryptoError
import TopicCipher.Envelope.Basic

/-!
# Encrypted fields

An encrypted field of a message is a text of four segments between dots: a mark, the key version,
the initialization vector and the ciphertext.  A text that does not begin with the mark and a dot
is plaintext.  The mark commits: a text that begins with it is either a well-formed field or an
error, never plaintext.

The format has no place for a key name.
-/

namespace TopicCipher.Field

/-- The mark of an encrypted field. -/
def mark : String := "encAesV1"

/-- The number of segments. -/
def segmentCount : Nat := 4

/-- Holds of texts that begin with the mark and a dot. -/
def isMarked (text : String) : Bool := (mark.toList ++ ['.']).isPrefixOf text.toList

/-- The text of an envelope. -/
def encode (e : Envelope) : Except CryptoError String :=
  match e.cipherIv? with
  | some iv =>
    .ok (String.ofList (['.'].intercalate
      [mark.toList, e.version.digits, Base64.standard.encodeChars iv,
        Base64.standard.encodeChars e.payload]))
  | none =>
    match Bytes.toText? e.payload with
    | some text => .ok text
    | none => .error (.field .payloadNotText)

/-- The envelope of three segments after the mark. -/
def ofSegments (version iv ciphertext : List Char) : Except FieldFault Envelope := do
  let some v := Version.read? version | .error (.version (String.ofList version))
  if v = 0 then .error .versionZero
  let some iv := Base64.standard.decodeChars? iv | .error .iv
  let some payload := Base64.standard.decodeChars? ciphertext | .error .ciphertext
  .ok ⟨payload, some iv, v, none⟩

/-- The envelope of a text. -/
def decode (text : String) : Except CryptoError Envelope :=
  if isMarked text then
    match text.toList.splitOn '.' with
    | [_, version, iv, ciphertext] => (ofSegments version iv ciphertext).mapError .field
    | segments => .error (.field (.segmentCount segments.length))
  else .ok (.plaintext (Bytes.ofText text))

end TopicCipher.Field
