import TopicCipher.Cipher.Aes
import TopicCipher.Cipher.Ghash

/-!
# AES-256-GCM

A message is masked with a key stream and followed by a tag of sixteen bytes.  The tag depends on
key, initialization vector and ciphertext, never on the plaintext directly, so decryption can check
it first: `decrypt?` compares the tag and only then removes the mask.  Masking with the same stream
twice gives the message back, which is all that the round trip needs.

Initialization vectors have twelve bytes and there is no associated data.  A message has at most
`maxPlaintext` bytes, which keeps the block counter from wrapping.

* `mask_mask`: the mask is its own inverse.
* `length_mask`: the mask keeps the length.
-/

namespace TopicCipher.Gcm

/-- The length of a key in bytes. -/
def keyLength : Nat := 32

/-- The length of an initialization vector in bytes. -/
def ivLength : Nat := 12

/-- The length of a tag in bytes. -/
def tagLength : Nat := 16

/-- The longest plaintext in bytes, `2 ^ 36` of them. -/
def maxPlaintext : Nat := 68719476736

/-- The four big-endian bytes of a block counter. -/
def counterBytes (n : UInt32) : Bytes := Aes.Block.columnBytes n

/-- The counter block with the given number. -/
def counterBlock (iv : Bytes) (n : UInt32) : Aes.Block :=
  Aes.Block.ofBytes (iv ++ counterBytes n)

/-- The key stream of the given number of blocks.  Counter `1` is kept for the tag. -/
def keyStream (s : Aes.Schedule) (iv : Bytes) (count : Nat) : Bytes :=
  (List.range count).flatMap fun i =>
    (Aes.encryptBlock s (counterBlock iv (UInt32.ofNat (i + 2)))).toBytes

/-- Adds the key stream to a message. -/
def mask (s : Aes.Schedule) (iv message : Bytes) : Bytes :=
  List.zipWith (· ^^^ ·) message (keyStream s iv (Ghash.blockCount message.length))

/-- The tag of a ciphertext. -/
def tag (s : Aes.Schedule) (iv ciphertext : Bytes) : Bytes :=
  let key := Ghash.Element.ofBytes (Aes.encryptBlock s ⟨0, 0, 0, 0⟩).toBytes
  let cover := Ghash.Element.ofBytes (Aes.encryptBlock s (counterBlock iv 1)).toBytes
  ((Ghash.hash key ciphertext).add cover).toBytes

@[simp] theorem length_tag (s : Aes.Schedule) (iv ciphertext : Bytes) :
    (tag s iv ciphertext).length = tagLength := rfl

/-- Masks a message and appends the tag. -/
def encrypt? (key iv plaintext : Bytes) : Option Bytes :=
  if plaintext.length ≤ maxPlaintext then
    let s := Aes.Schedule.ofKey key
    let ciphertext := mask s iv plaintext
    some (ciphertext ++ tag s iv ciphertext)
  else none

/-- Checks the tag at the end of a sealed message and removes the mask. -/
def decrypt? (key iv sealed : Bytes) : Option Bytes :=
  if tagLength ≤ sealed.length ∧ sealed.length ≤ maxPlaintext + tagLength then
    let s := Aes.Schedule.ofKey key
    let ciphertext := sealed.take (sealed.length - tagLength)
    if sealed.drop (sealed.length - tagLength) = tag s iv ciphertext then
      some (mask s iv ciphertext)
    else none
  else none

theorem length_keyStream (s : Aes.Schedule) (iv : Bytes) (count : Nat) :
    (keyStream s iv count).length = 16 * count := by
  induction count with
  | zero => rfl
  | succ n ih =>
    rw [keyStream, List.range_succ, List.flatMap_append, List.length_append, ← keyStream, ih]
    simp
    omega

theorem le_blockCount (n : Nat) : n ≤ 16 * Ghash.blockCount n := by
  unfold Ghash.blockCount
  omega

@[simp] theorem length_mask (s : Aes.Schedule) (iv message : Bytes) :
    (mask s iv message).length = message.length := by
  have h := le_blockCount message.length
  rw [mask, List.length_zipWith, length_keyStream]
  omega

/-- The mask is its own inverse. -/
theorem mask_mask (s : Aes.Schedule) (iv message : Bytes) :
    mask s iv (mask s iv message) = message := by
  apply List.ext_getElem
  · simp
  · intro i h₁ h₂
    simp only [mask, List.getElem_zipWith, UInt8.xor_assoc]
    have hlen : (List.zipWith (· ^^^ ·) message
        (keyStream s iv (Ghash.blockCount message.length))).length = message.length :=
      length_mask s iv message
    simp only [hlen, UInt8.xor_self, UInt8.xor_zero]

end TopicCipher.Gcm
