import TopicCipher.Base64
import TopicCipher.Cipher.Gcm
import TopicCipher.CryptoError
import TopicCipher.Text.Blank

/-!
# Topic keys

A topic key is thirty-two bytes.  Secret stores hand it out as text: base64 in either alphabet,
with or without padding, and often with a line break at the end.  `keyLayouts` lists the four
layouts in the order in which they are tried.

Encryption under a chosen initialization vector is a function of key, vector and plaintext;
drawing a fresh vector is the caller's part.
-/

namespace TopicCipher

/-- Key material of the length that the cipher needs. -/
structure TopicKey where
  bytes : Bytes
  length_bytes : bytes.length = Gcm.keyLength
  deriving DecidableEq

/-- The layouts that key material may be written in, in the order in which they are tried. -/
def keyLayouts : List Base64 :=
  [⟨.urlSafe, true⟩, ⟨.standard, true⟩, ⟨.urlSafe, false⟩, ⟨.standard, false⟩]

/-- The key material that a text stands for. -/
def keyMaterial (text : String) : Except CryptoError Bytes :=
  match keyLayouts.findSome? fun layout => layout.decode? (Text.trim text) with
  | some bytes => .ok bytes
  | none => .error (.keyEncoding Base64.rejection)

namespace TopicKey

/-- A key of the given bytes. -/
def ofBytes (bytes : Bytes) : Except CryptoError TopicKey :=
  if h : bytes.length = Gcm.keyLength then .ok ⟨bytes, h⟩
  else .error (.keyLength Gcm.keyLength bytes.length)

/-- A key from the text that a secret store hands out. -/
def ofText (text : String) : Except CryptoError TopicKey := do
  let bytes ← keyMaterial text
  ofBytes bytes

/-- Refuses initialization vectors of another length than twelve bytes. -/
def checkIv (iv : Bytes) : Except CryptoError Unit :=
  if iv.length = Gcm.ivLength then .ok () else .error (.ivLength Gcm.ivLength iv.length)

/-- Encrypts under a given initialization vector.  The tag follows the ciphertext. -/
def encrypt (key : TopicKey) (iv plaintext : Bytes) : Except CryptoError Bytes := do
  checkIv iv
  match Gcm.encrypt? key.bytes iv plaintext with
  | some sealed => .ok sealed
  | none => .error (.encryption "aead::Error")

/-- Decrypts a ciphertext with its tag.  What does not carry the right tag is never returned. -/
def decrypt (key : TopicKey) (iv sealed : Bytes) : Except CryptoError Bytes := do
  checkIv iv
  match Gcm.decrypt? key.bytes iv sealed with
  | some plaintext => .ok plaintext
  | none => .error .authentication

end TopicKey

end TopicCipher
