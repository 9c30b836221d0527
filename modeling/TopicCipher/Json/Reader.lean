import TopicCipher.Bytes
import TopicCipher.Json.Basic

/-!
# Reading JSON

The reader works on bytes and is strict: no byte order mark, no comments, no trailing comma, no
leading zero, no raw control character in a string, and nothing but blanks after the document.
How deep a document nests does not matter to it.

String literals are read in two steps.  `literal` finds the end of the literal and checks its
escapes; `spell?` decides which text the literal spells, if any.  Only the first step can make a
document unreadable.

The recursion is on a fuel that the length of the document bounds, because every step consumes
at least one byte.
-/

namespace TopicCipher.Json

/-- The blanks between tokens. -/
def skipBlanks (bytes : Bytes) : Bytes :=
  bytes.dropWhile fun b => b == 0x20 || b == 0x09 || b == 0x0A || b == 0x0D

/-! ## String literals -/

/-- A piece of a string literal: a byte, or an escaped sixteen-bit unit. -/
inductive Piece where
  | byte (b : UInt8)
  | unit (u : Nat)
  deriving DecidableEq, Repr

/-- The value of a hexadecimal digit. -/
def hexDigit? (b : UInt8) : Option Nat :=
  if 0x30 ≤ b ∧ b ≤ 0x39 then some (b.toNat - 0x30)
  else if 0x61 ≤ b ∧ b ≤ 0x66 then some (b.toNat - 0x57)
  else if 0x41 ≤ b ∧ b ≤ 0x46 then some (b.toNat - 0x37)
  else none

/-- The unit of four hexadecimal digits. -/
def hexUnit? (a b c d : UInt8) : Option Nat := do
  let a ← hexDigit? a
  let b ← hexDigit? b
  let c ← hexDigit? c
  let d ← hexDigit? d
  some (((a * 16 + b) * 16 + c) * 16 + d)

/-- The byte that a one-letter escape stands for. -/
def shortEscape? : UInt8 → Option UInt8
  | 0x22 => some 0x22
  | 0x5C => some 0x5C
  | 0x2F => some 0x2F
  | 0x62 => some 0x08
  | 0x66 => some 0x0C
  | 0x6E => some 0x0A
  | 0x72 => some 0x0D
  | 0x74 => some 0x09
  | _ => none

/-- The pieces of a literal up to its closing quote, and what follows the quote. -/
def literal : Bytes → Option (List Piece × Bytes)
  | [] => none
  | 0x22 :: rest => some ([], rest)
  | 0x5C :: 0x75 :: a :: b :: c :: d :: rest => do
    let u ← hexUnit? a b c d
    let (pieces, rest) ← literal rest
    some (.unit u :: pieces, rest)
  | 0x5C :: e :: rest => do
    let b ← shortEscape? e
    let (pieces, rest) ← literal rest
    some (.byte b :: pieces, rest)
  | b :: rest =>
    if b < 0x20 ∨ b = 0x5C then none
    else do
      let (pieces, rest) ← literal rest
      some (.byte b :: pieces, rest)

/-- Holds of units that only count before a low surrogate. -/
def isHighSurrogate (u : Nat) : Bool := 0xD800 ≤ u && u < 0xDC00

/-- Holds of units that only count after a high surrogate. -/
def isLowSurrogate (u : Nat) : Bool := 0xDC00 ≤ u && u < 0xE000

/-- The UTF-8 form of a code point. -/
def codePoint (n : Nat) : Bytes := String.utf8EncodeChar (Char.ofNat n)

/-- The bytes of a literal, with escaped units as UTF-8. -/
def pieceBytes? : List Piece → Option Bytes
  | [] => some []
  | .byte b :: rest => (pieceBytes? rest).map (b :: ·)
  | .unit u :: .unit v :: rest =>
    if isHighSurrogate u then
      if isLowSurrogate v then
        (pieceBytes? rest).map (codePoint (0x10000 + (u - 0xD800) * 0x400 + (v - 0xDC00)) ++ ·)
      else none
    else if isLowSurrogate u then none
    else (pieceBytes? (.unit v :: rest)).map (codePoint u ++ ·)
  | .unit u :: rest =>
    if isHighSurrogate u || isLowSurrogate u then none
    else (pieceBytes? rest).map (codePoint u ++ ·)

/-- The text that a literal spells. -/
def spell? (pieces : List Piece) : Option String := (pieceBytes? pieces).bind Bytes.toText?

/-! ## Numbers -/

/-- Holds of decimal digits. -/
def isDigit (b : UInt8) : Bool := 0x30 ≤ b && b ≤ 0x39

/-- A nonempty run of digits. -/
def digits (bytes : Bytes) : Option (List Nat × Bytes) :=
  match bytes.takeWhile isDigit with
  | [] => none
  | run => some (run.map fun b => b.toNat - 0x30, bytes.dropWhile isDigit)

/-- The digits before the point: a zero alone, or a run that does not begin with one. -/
def wholeDigits : Bytes → Option (List Nat × Bytes)
  | 0x30 :: rest => if rest.head?.any isDigit then none else some ([0], rest)
  | bytes => digits bytes

/-- The digits after the point; none without a point. -/
def fractionDigits : Bytes → Option (List Nat × Bytes)
  | 0x2E :: rest => digits rest
  | bytes => some ([], bytes)

/-- The size of an exponent.  Exponents of more than 31 bits count as the greatest of 31 bits,
which is out of every range already. -/
def exponentSize (digits : List Nat) : Nat :=
  digits.foldl (fun size digit => Nat.min (size * 10 + digit) 0x7FFFFFFF) 0

/-- The digits of an exponent with an optional sign. -/
def exponentValue : Bytes → Option (Int × Bytes)
  | 0x2D :: rest => (digits rest).map fun (run, rest) => (-(exponentSize run : Int), rest)
  | 0x2B :: rest => (digits rest).map fun (run, rest) => ((exponentSize run : Int), rest)
  | bytes => (digits bytes).map fun (run, rest) => ((exponentSize run : Int), rest)

/-- The exponent; none without its letter. -/
def exponent : Bytes → Option (Option Int × Bytes)
  | 0x65 :: rest => (exponentValue rest).map fun (e, rest) => (some e, rest)
  | 0x45 :: rest => (exponentValue rest).map fun (e, rest) => (some e, rest)
  | bytes => some (none, bytes)

/-- A number without its sign. -/
def unsigned (negative : Bool) (bytes : Bytes) : Option (Numeral × Bytes) := do
  let (whole, bytes) ← wholeDigits bytes
  let (fraction, bytes) ← fractionDigits bytes
  let (exponent, bytes) ← exponent bytes
  some ({ negative, whole, fraction, exponent }, bytes)

/-- A number. -/
def numeral : Bytes → Option (Numeral × Bytes)
  | 0x2D :: rest => unsigned true rest
  | bytes => unsigned false bytes

/-! ## Values -/

/-- What follows the letters of a keyword. -/
def keyword (name : String) (value : Json) (bytes : Bytes) : Option (Json × Bytes) :=
  let letters := Bytes.ofText name
  if letters.isPrefixOf bytes then some (value, bytes.drop letters.length) else none

mutual

/-- A value, with blanks before it. -/
def value : (fuel : Nat) → Bytes → Option (Json × Bytes)
  | 0, _ => none
  | fuel + 1, bytes =>
    match skipBlanks bytes with
    | [] => none
    | 0x22 :: rest => do
      let (pieces, rest) ← literal rest
      some (.string (spell? pieces), rest)
    | 0x5B :: rest =>
      match skipBlanks rest with
      | 0x5D :: rest => some (.array [], rest)
      | rest => do
        let (items, rest) ← items fuel rest
        some (.array items, rest)
    | 0x7B :: rest =>
      match skipBlanks rest with
      | 0x7D :: rest => some (.object [], rest)
      | rest => do
        let (fields, rest) ← fields fuel rest
        some (.object fields, rest)
    | 0x6E :: rest => keyword "null" .null (0x6E :: rest)
    | 0x74 :: rest => keyword "true" (.bool true) (0x74 :: rest)
    | 0x66 :: rest => keyword "false" (.bool false) (0x66 :: rest)
    | bytes => do
      let (n, rest) ← numeral bytes
      some (.number n, rest)

/-- The items of an array up to its closing bracket. -/
def items : (fuel : Nat) → Bytes → Option (List Json × Bytes)
  | 0, _ => none
  | fuel + 1, bytes => do
    let (item, rest) ← value fuel bytes
    match skipBlanks rest with
    | 0x2C :: rest =>
      let (items, rest) ← items fuel rest
      some (item :: items, rest)
    | 0x5D :: rest => some ([item], rest)
    | _ => none

/-- The fields of an object up to its closing brace. -/
def fields : (fuel : Nat) → Bytes → Option (List (Option String × Json) × Bytes)
  | 0, _ => none
  | fuel + 1, bytes =>
    match skipBlanks bytes with
    | 0x22 :: rest => do
      let (pieces, rest) ← literal rest
      match skipBlanks rest with
      | 0x3A :: rest =>
        let (item, rest) ← value fuel rest
        match skipBlanks rest with
        | 0x2C :: rest =>
          let (fields, rest) ← fields fuel rest
          some ((spell? pieces, item) :: fields, rest)
        | 0x7D :: rest => some ([(spell? pieces, item)], rest)
        | _ => none
      | _ => none
    | _ => none

end

/-- The document that some bytes hold. -/
def ofBytes? (bytes : Bytes) : Option Json := do
  let (document, rest) ← value (bytes.length + 1) bytes
  if (skipBlanks rest).isEmpty then some document else none

/-- The document that a text holds. -/
def ofText? (text : String) : Option Json := ofBytes? (Bytes.ofText text)

end TopicCipher.Json
