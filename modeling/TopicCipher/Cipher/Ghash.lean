import TopicCipher.Bytes

/-!
# The universal hash of GCM

A block of sixteen bytes is an element of the field of `2 ^ 128` elements, its first bit being
the coefficient of `1`.  The hash of a sequence of blocks is its polynomial evaluated at the hash
key.
-/

namespace TopicCipher.Ghash

/-- A field element: the first and the last eight bytes of a block. -/
structure Element where
  high : UInt64
  low : UInt64
  deriving DecidableEq, Repr

namespace Element

/-- The sum of two elements. -/
def add (x y : Element) : Element := ⟨x.high ^^^ y.high, x.low ^^^ y.low⟩

/-- The product loop.  `bits` bits of the first factor are still to be read, from the top of `x`
and then of `x'`; `v`, `v'` is the second factor times the matching power, and `z`, `z'` the
product so far. -/
def mulLoop : Nat → (x x' v v' z z' : UInt64) → Element
  | 0, _, _, _, _, z, z' => ⟨z, z'⟩
  | bits + 1, x, x', v, v', z, z' =>
    let keep : Bool := x &&& 0x8000000000000000 == 0
    let carry : UInt64 := if v' &&& 1 == 0 then 0 else 0xE100000000000000
    mulLoop bits ((x <<< 1) ||| (x' >>> 63)) (x' <<< 1)
      ((v >>> 1) ^^^ carry) ((v' >>> 1) ||| (v <<< 63))
      (if keep then z else z ^^^ v) (if keep then z' else z' ^^^ v')

/-- The product of two elements. -/
def mul (x y : Element) : Element := mulLoop 128 x.high x.low y.high y.low 0 0

/-- The number whose big-endian digits are the given bytes. -/
def bigEndian (bytes : Bytes) : UInt64 :=
  bytes.foldl (fun n b => (n <<< 8) ||| b.toUInt64) 0

/-- The element of a block; a short block is filled up with zeros. -/
def ofBytes (bytes : Bytes) : Element :=
  let block := bytes ++ List.replicate (16 - bytes.length) 0
  ⟨bigEndian (block.take 8), bigEndian (block.drop 8)⟩

/-- The eight big-endian bytes of a number. -/
def bigEndianBytes (n : UInt64) : Bytes :=
  [(n >>> 56).toUInt8, (n >>> 48).toUInt8, (n >>> 40).toUInt8, (n >>> 32).toUInt8,
    (n >>> 24).toUInt8, (n >>> 16).toUInt8, (n >>> 8).toUInt8, n.toUInt8]

/-- The sixteen bytes of an element. -/
def toBytes (x : Element) : Bytes := bigEndianBytes x.high ++ bigEndianBytes x.low

end Element

/-- Cuts bytes into the given number of blocks of sixteen bytes, the last of which may be short. -/
def blocks : Nat → Bytes → List Bytes
  | 0, _ => []
  | n + 1, bytes => bytes.take 16 :: blocks n (bytes.drop 16)

/-- The number of blocks that so many bytes fill or begin. -/
def blockCount (length : Nat) : Nat := (length + 15) / 16

/-- The hash of a ciphertext that has no associated data beside it: its blocks, then a block with
the two lengths in bits. -/
def hash (key : Element) (ciphertext : Bytes) : Element :=
  let absorb (h : Element) (x : Element) : Element := (h.add x).mul key
  absorb
    ((blocks (blockCount ciphertext.length) ciphertext).foldl
      (fun h block => absorb h (Element.ofBytes block)) ⟨0, 0⟩)
    ⟨0, UInt64.ofNat (8 * ciphertext.length)⟩

end TopicCipher.Ghash
