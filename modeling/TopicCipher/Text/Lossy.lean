import TopicCipher.Bytes

/-!
# Reading bytes as text at any price

An answer of a server may claim to be text and not be.  `lossyText` reads what is UTF-8 and puts
a replacement character in the place of everything else: one for each longest beginning of a
character that is broken off, and one for each byte that begins no character.
-/

namespace TopicCipher.Text

/-- The character in the place of bytes that are no text. -/
def replacement : Char := '\uFFFD'

/-- Holds of bytes in a range. -/
def inRange (low high b : UInt8) : Bool := low ≤ b && b ≤ high

/-- What a byte begins: the number of bytes that follow and the range of the first of them. -/
def leadByte? (b : UInt8) : Option (Nat × UInt8 × UInt8) :=
  if inRange 0xC2 0xDF b then some (1, 0x80, 0xBF)
  else if b = 0xE0 then some (2, 0xA0, 0xBF)
  else if b = 0xED then some (2, 0x80, 0x9F)
  else if inRange 0xE1 0xEF b then some (2, 0x80, 0xBF)
  else if b = 0xF0 then some (3, 0x90, 0xBF)
  else if inRange 0xF1 0xF3 b then some (3, 0x80, 0xBF)
  else if b = 0xF4 then some (3, 0x80, 0x8F)
  else none

/-- The number of bytes, up to a count, that continue a character. -/
def continuation : (count : Nat) → (low high : UInt8) → Bytes → Nat
  | 0, _, _, _ => 0
  | _, _, _, [] => 0
  | count + 1, low, high, b :: rest =>
    if inRange low high b then continuation count 0x80 0xBF rest + 1 else 0

/-- The character at the head of some bytes, and the number of further bytes it takes. -/
def headChar (b : UInt8) (rest : Bytes) : Char × Nat :=
  if b < 0x80 then (Char.ofNat b.toNat, 0)
  else
    match leadByte? b with
    | none => (replacement, 0)
    | some (count, low, high) =>
      let found := continuation count low high rest
      if found = count then
        match Bytes.toText? (b :: rest.take count) with
        | some text => (text.toList.headD replacement, count)
        | none => (replacement, count)
      else (replacement, found)

/-- The characters after the first `skip` bytes, which belong to a character already read. -/
def lossyFrom : (skip : Nat) → Bytes → List Char
  | _, [] => []
  | skip + 1, _ :: rest => lossyFrom skip rest
  | 0, b :: rest => (headChar b rest).1 :: lossyFrom (headChar b rest).2 rest

/-- The text of some bytes, with replacements for what is no text. -/
def lossyText (bytes : Bytes) : String := String.ofList (lossyFrom 0 bytes)

end TopicCipher.Text
