import TopicCipher.Bytes

/-!
# The AES-256 block function

One block of sixteen bytes is four columns of four bytes, a column being one 32-bit word with
its first byte on top.  A round substitutes every byte, rotates the rows, mixes every column and
adds a round key.  Because the rows are rotated before the columns are mixed, the new column `j`
takes its bytes from the columns `j`, `j + 1`, `j + 2` and `j + 3` of the old block, which is how
`round` reads them.

The substitution is not a table copied from somewhere: it is inversion in the field of 256
elements followed by an affine map, and `substitution` tabulates it once.
-/

namespace TopicCipher.Aes

/-! ## The field of 256 elements -/

/-- Doubling, reduced by the polynomial `x⁸ + x⁴ + x³ + x + 1`. -/
def double (a : UInt8) : UInt8 :=
  if a &&& 0x80 = 0 then a <<< 1 else (a <<< 1) ^^^ 0x1B

/-- The product of two field elements; `bits` bits of the second are still to be read. -/
def mulBits : Nat → UInt8 → UInt8 → UInt8
  | 0, _, _ => 0
  | bits + 1, a, b =>
    (if b &&& 1 = 0 then 0 else a) ^^^ mulBits bits (double a) (b >>> 1)

/-- The product of two field elements. -/
def mul (a b : UInt8) : UInt8 := mulBits 8 a b

/-- The inverse, which is the 254th power, with `0` for `0`. -/
def inverse (a : UInt8) : UInt8 :=
  let a2 := mul a a
  let a3 := mul a2 a
  let a12 := mul (mul a3 a3) (mul a3 a3)
  let a15 := mul a12 a3
  let a240 := (List.range 4).foldl (fun p _ => mul p p) a15
  mul (mul a240 a12) a2

/-- Rotates the eight bits of a byte to the left. -/
def rotateByte (a : UInt8) (n : UInt8) : UInt8 := (a <<< n) ||| (a >>> (8 - n))

/-- The substituted byte, by its definition. -/
def substitute (a : UInt8) : UInt8 :=
  let b := inverse a
  b ^^^ rotateByte b 1 ^^^ rotateByte b 2 ^^^ rotateByte b 3 ^^^ rotateByte b 4 ^^^ 0x63

/-- The substituted bytes in a row. -/
def substitution : Array UInt8 := (Array.range 256).map fun n => substitute (UInt8.ofNat n)

/-- The substituted byte, by the table. -/
def sub (a : UInt8) : UInt8 := substitution.getD a.toNat 0

/-! ## Columns -/

/-- The word whose bytes are given from the top down. -/
def word (a b c d : UInt8) : UInt32 :=
  (a.toUInt32 <<< 24) ||| (b.toUInt32 <<< 16) ||| (c.toUInt32 <<< 8) ||| d.toUInt32

/-- The first byte of a column. -/
def byte0 (w : UInt32) : UInt8 := (w >>> 24).toUInt8

/-- The second byte of a column. -/
def byte1 (w : UInt32) : UInt8 := (w >>> 16).toUInt8

/-- The third byte of a column. -/
def byte2 (w : UInt32) : UInt8 := (w >>> 8).toUInt8

/-- The last byte of a column. -/
def byte3 (w : UInt32) : UInt8 := w.toUInt8

/-- The column of the given bytes, mixed. -/
def mixColumn (a b c d : UInt8) : UInt32 :=
  let all := a ^^^ b ^^^ c ^^^ d
  word (a ^^^ all ^^^ double (a ^^^ b)) (b ^^^ all ^^^ double (b ^^^ c))
    (c ^^^ all ^^^ double (c ^^^ d)) (d ^^^ all ^^^ double (d ^^^ a))

/-- Four columns: a block, or a round key. -/
structure Block where
  c0 : UInt32
  c1 : UInt32
  c2 : UInt32
  c3 : UInt32
  deriving DecidableEq, Repr

namespace Block

/-- The block of the first sixteen bytes, with zeros for missing ones. -/
def ofBytes (bytes : Bytes) : Block :=
  let at' (i : Nat) : UInt8 := bytes.getD i 0
  ⟨word (at' 0) (at' 1) (at' 2) (at' 3), word (at' 4) (at' 5) (at' 6) (at' 7),
    word (at' 8) (at' 9) (at' 10) (at' 11), word (at' 12) (at' 13) (at' 14) (at' 15)⟩

/-- The four bytes of a column. -/
def columnBytes (w : UInt32) : Bytes := [byte0 w, byte1 w, byte2 w, byte3 w]

/-- The sixteen bytes of a block. -/
def toBytes (b : Block) : Bytes :=
  columnBytes b.c0 ++ columnBytes b.c1 ++ columnBytes b.c2 ++ columnBytes b.c3

@[simp] theorem length_toBytes (b : Block) : b.toBytes.length = 16 := rfl

/-- Adds a round key. -/
def add (b k : Block) : Block := ⟨b.c0 ^^^ k.c0, b.c1 ^^^ k.c1, b.c2 ^^^ k.c2, b.c3 ^^^ k.c3⟩

end Block

/-! ## Rounds -/

/-- One new column from the columns that its four rows come from. -/
def roundColumn (w x y z : UInt32) : UInt32 :=
  mixColumn (sub (byte0 w)) (sub (byte1 x)) (sub (byte2 y)) (sub (byte3 z))

/-- Substitutes, rotates the rows, mixes the columns. -/
def round (b : Block) : Block :=
  ⟨roundColumn b.c0 b.c1 b.c2 b.c3, roundColumn b.c1 b.c2 b.c3 b.c0,
    roundColumn b.c2 b.c3 b.c0 b.c1, roundColumn b.c3 b.c0 b.c1 b.c2⟩

/-- One new column of the last round, which does not mix. -/
def lastColumn (w x y z : UInt32) : UInt32 :=
  word (sub (byte0 w)) (sub (byte1 x)) (sub (byte2 y)) (sub (byte3 z))

/-- Substitutes and rotates the rows. -/
def lastRound (b : Block) : Block :=
  ⟨lastColumn b.c0 b.c1 b.c2 b.c3, lastColumn b.c1 b.c2 b.c3 b.c0,
    lastColumn b.c2 b.c3 b.c0 b.c1, lastColumn b.c3 b.c0 b.c1 b.c2⟩

/-! ## The key schedule -/

/-- Substitutes every byte of a word. -/
def subWord (w : UInt32) : UInt32 :=
  word (sub (byte0 w)) (sub (byte1 w)) (sub (byte2 w)) (sub (byte3 w))

/-- Substitutes a word rotated by one byte. -/
def subRotated (w : UInt32) : UInt32 :=
  word (sub (byte1 w)) (sub (byte2 w)) (sub (byte3 w)) (sub (byte0 w))

/-- The next round keys, two at a time: `pairs` pairs follow the pair `a`, `b`, and `constant` is
the round constant of the next one. -/
def expand : Nat → UInt8 → Block → Block → List Block
  | 0, _, _, _ => []
  | pairs + 1, constant, a, b =>
    let a0 := a.c0 ^^^ subRotated b.c3 ^^^ word constant 0 0 0
    let a1 := a.c1 ^^^ a0
    let a2 := a.c2 ^^^ a1
    let a3 := a.c3 ^^^ a2
    let b0 := b.c0 ^^^ subWord a3
    let b1 := b.c1 ^^^ b0
    let b2 := b.c2 ^^^ b1
    let b3 := b.c3 ^^^ b2
    ⟨a0, a1, a2, a3⟩ :: ⟨b0, b1, b2, b3⟩ ::
      expand pairs (double constant) ⟨a0, a1, a2, a3⟩ ⟨b0, b1, b2, b3⟩

/-- The expanded key: the key of the start, of the thirteen full rounds and of the last round. -/
structure Schedule where
  first : Block
  middle : List Block
  last : Block

/-- Expands a key of thirty-two bytes. -/
def Schedule.ofKey (key : Bytes) : Schedule :=
  let a := Block.ofBytes (key.take 16)
  let b := Block.ofBytes (key.drop 16)
  let later := expand 7 1 a b
  ⟨a, b :: later.take 12, later.getD 12 a⟩

/-- The AES-256 permutation of a block. -/
def encryptBlock (s : Schedule) (b : Block) : Block :=
  (lastRound (s.middle.foldl (fun b k => (round b).add k) (b.add s.first))).add s.last

end TopicCipher.Aes
