/-!
# Numbers as they are written

A numeral keeps its digits.  It can be used in two ways: as a natural number of at most 64 bits,
and as a double, of which only matters whether it is finite.

The double is found from a significand of 64 bits.  Digits go into the significand as long as it
fits; a digit before the point that is left over counts as a zero.  The significand and the power
of ten are then rounded to a double each before they are multiplied.  The product can therefore
miss the double that is nearest to the number, and a numeral at the upper end of the range may
count as infinite although the number itself would round to the greatest double.

* `appendDigits`: the significand, as far as it fits into 64 bits.
* `toNat?`: the natural number that a numeral stands for.
* `isFinite`: whether the double is finite.
-/

namespace TopicCipher

/-- A number as it is written. -/
structure Json.Numeral where
  negative : Bool
  /-- The digits before the point. -/
  whole : List Nat
  /-- The digits after the point; empty when there is no point. -/
  fraction : List Nat
  /-- The exponent, if there is one. -/
  exponent : Option Int
  deriving DecidableEq, Repr

namespace Json.Numeral

/-- Appends digits to a significand as long as the result fits into 64 bits.  The other component
holds the digits that are left. -/
def appendDigits (significand : Nat) : List Nat → Nat × List Nat
  | [] => (significand, [])
  | digit :: rest =>
    if significand * 10 + digit < UInt64.size then appendDigits (significand * 10 + digit) rest
    else (significand, digit :: rest)

/-- The number, if it is written without sign, point and exponent and fits into 64 bits. -/
def toNat? (n : Numeral) : Option Nat :=
  match appendDigits 0 n.whole with
  | (value, []) =>
    if !n.negative && n.fraction.isEmpty && n.exponent.isNone then some value else none
  | _ => none

/-- The significand and the power of ten that scales it.  Every digit that is left over before
the point raises the power, and every digit that is taken after the point lowers it. -/
def scaled (n : Numeral) : Nat × Int :=
  let (significand, dropped) := appendDigits 0 n.whole
  let (significand, rest) := appendDigits significand n.fraction
  (significand, dropped.length + rest.length - n.fraction.length + n.exponent.getD 0)

/-! ## Doubles -/

/-- A natural number with its binary digits after the first 53 rounded off, ties to even. -/
def roundDouble (n : Nat) : Nat :=
  let shift := n.log2 - 52
  let kept := n >>> shift
  let twice := (n - kept <<< shift) * 2
  let unit := 1 <<< shift
  if unit < twice || (unit == twice && kept % 2 == 1) then (kept + 1) <<< shift
  else kept <<< shift

/-- The least number that is too big for a double: the middle between the greatest double and the
power of two above it. -/
def doubleLimit : Nat := Nat.pow 2 1024 - Nat.pow 2 970

/-- Holds of numerals whose double is finite.  No significand reaches the limit by itself, so a
power of ten that does not raise it cannot hurt. -/
def isFinite (n : Numeral) : Bool :=
  let (significand, power) := n.scaled
  if significand = 0 ∨ power < 0 then true
  else if 308 < power then false
  else roundDouble significand * roundDouble (Nat.pow 10 power.toNat) < doubleLimit

end Json.Numeral

end TopicCipher
