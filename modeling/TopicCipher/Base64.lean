import TopicCipher.Bytes

/-!
# Base64

Three bytes are written as four symbols of six bits each.  Two alphabets differ in the last two
symbols, and a text that ends in a group of one or two bytes is filled up with `=` or left short.
Reading is strict: it accepts exactly what writing produces, so the bits that a last group leaves
over must be zero, and no blank is skipped.

Reading does not know the alphabet by the text: a text without the last two symbols of either
alphabet reads the same under both.
-/

namespace TopicCipher

/-- One of the two sets of sixty-four symbols. -/
inductive Base64.Alphabet where
  | standard
  | urlSafe
  deriving DecidableEq, Repr

/-- A base64 layout: an alphabet, and whether short last groups are filled up with `=`. -/
structure Base64 where
  alphabet : Base64.Alphabet
  padded : Bool
  deriving DecidableEq, Repr

namespace Base64

/-- The layout of initialization vectors and ciphertexts. -/
def standard : Base64 := ⟨.standard, true⟩

namespace Alphabet

/-- The symbol of `62`. -/
def symbol62 : Alphabet → Char
  | .standard => '+'
  | .urlSafe => '-'

/-- The symbol of `63`. -/
def symbol63 : Alphabet → Char
  | .standard => '/'
  | .urlSafe => '_'

/-- The symbol of a number below sixty-four. -/
def symbol (a : Alphabet) (n : Nat) : Char :=
  if n < 26 then Char.ofNat (n + 65)
  else if n < 52 then Char.ofNat (n + 71)
  else if n < 62 then Char.ofNat (n - 4)
  else if n = 62 then a.symbol62
  else a.symbol63

/-- The number that a symbol stands for. -/
def value? (a : Alphabet) (c : Char) : Option Nat :=
  if 'A' ≤ c ∧ c ≤ 'Z' then some (c.toNat - 65)
  else if 'a' ≤ c ∧ c ≤ 'z' then some (c.toNat - 71)
  else if '0' ≤ c ∧ c ≤ '9' then some (c.toNat + 4)
  else if c = a.symbol62 then some 62
  else if c = a.symbol63 then some 63
  else none

/-- Every number below sixty-four has its own symbol. -/
theorem value?_symbol (a : Alphabet) : ∀ n < 64, a.value? (a.symbol n) = some n := by
  cases a <;> decide

end Alphabet

/-- Writes bytes in groups of three. -/
def encodeChars (b : Base64) : Bytes → List Char
  | [] => []
  | [x] =>
    b.alphabet.symbol (x.toNat / 4) :: b.alphabet.symbol (x.toNat % 4 * 16) ::
      if b.padded then ['=', '='] else []
  | [x, y] =>
    b.alphabet.symbol (x.toNat / 4) :: b.alphabet.symbol (x.toNat % 4 * 16 + y.toNat / 16) ::
      b.alphabet.symbol (y.toNat % 16 * 4) :: if b.padded then ['='] else []
  | x :: y :: z :: rest =>
    b.alphabet.symbol (x.toNat / 4) :: b.alphabet.symbol (x.toNat % 4 * 16 + y.toNat / 16) ::
      b.alphabet.symbol (y.toNat % 16 * 4 + z.toNat / 64) :: b.alphabet.symbol (z.toNat % 64) ::
        encodeChars b rest

/-- The byte of a last group of two symbols.  The four bits left over must be zero. -/
def readTwo (a : Alphabet) (c d : Char) : Option Bytes := do
  let m ← a.value? c
  let n ← a.value? d
  if n % 16 = 0 then some [UInt8.ofNat (m * 4 + n / 16)] else none

/-- The two bytes of a last group of three symbols.  The two bits left over must be zero. -/
def readThree (a : Alphabet) (c d e : Char) : Option Bytes := do
  let m ← a.value? c
  let n ← a.value? d
  let o ← a.value? e
  if o % 4 = 0 then
    some [UInt8.ofNat (m * 4 + n / 16), UInt8.ofNat (n % 16 * 16 + o / 4)]
  else none

/-- The three bytes of a full group of four symbols. -/
def readFour (a : Alphabet) (c d e f : Char) : Option Bytes := do
  let m ← a.value? c
  let n ← a.value? d
  let o ← a.value? e
  let p ← a.value? f
  some [UInt8.ofNat (m * 4 + n / 16), UInt8.ofNat (n % 16 * 16 + o / 4),
    UInt8.ofNat (o % 4 * 64 + p)]

/-- Reads symbols in groups of four.  Only the last group may be short, by `=` in a padded layout
and by missing symbols in an unpadded one. -/
def decodeChars? (b : Base64) : List Char → Option Bytes
  | [] => some []
  | [_] => none
  | [c, d] => if b.padded then none else readTwo b.alphabet c d
  | [c, d, e] => if b.padded then none else readThree b.alphabet c d e
  | c :: d :: e :: f :: rest =>
    if b.padded ∧ rest = [] ∧ f = '=' then
      if e = '=' then readTwo b.alphabet c d else readThree b.alphabet c d e
    else do
      let group ← readFour b.alphabet c d e f
      let tail ← decodeChars? b rest
      some (group ++ tail)

/-- The base64 text of some bytes. -/
def encode (b : Base64) (bytes : Bytes) : String := String.ofList (b.encodeChars bytes)

/-- The bytes of a base64 text. -/
def decode? (b : Base64) (text : String) : Option Bytes := b.decodeChars? text.toList

end Base64

end TopicCipher
