/-!
# Key versions

A key version counts the rotations of a topic key.  It is a 32-bit number; version `0` names no
key.  Versions are written in decimal without leading zeros, and read a little more freely: one
plus sign and leading zeros are allowed, and nothing else.

* `Version.read?_digits`: what was written reads back.
-/

namespace TopicCipher

/-- The number of a key generation, positive for every key that exists. -/
abbrev Version := UInt32

namespace Version

/-- The decimal digits of a version, without leading zeros. -/
def digits (v : Version) : List Char := Nat.toDigits 10 v.toNat

/-- The decimal text of a version. -/
def text (v : Version) : String := String.ofList v.digits

/-- Reads a nonempty run of decimal digits as a version, if it is not too big. -/
def readDigits? (cs : List Char) : Option Version :=
  if cs ≠ [] ∧ cs.all Char.isDigit then
    let n := Nat.ofDigitChars 10 cs 0
    if n < UInt32.size then some (UInt32.ofNat n) else none
  else none

/-- Reads a version: one optional plus sign, then decimal digits. -/
def read? : List Char → Option Version
  | '+' :: cs => readDigits? cs
  | cs => readDigits? cs

theorem digits_ne_nil (v : Version) : v.digits ≠ [] := Nat.toDigits_ne_nil

theorem isDigit_of_mem_digits {v : Version} {c : Char} (h : c ∈ v.digits) : c.isDigit = true :=
  Nat.isDigit_of_mem_toDigits (by decide) (by decide) h

theorem readDigits?_digits (v : Version) : readDigits? v.digits = some v := by
  have hall : v.digits.all Char.isDigit = true :=
    List.all_eq_true.mpr fun _ h => isDigit_of_mem_digits h
  rw [readDigits?, if_pos ⟨digits_ne_nil v, hall⟩]
  simp only [digits, Nat.ofDigitChars_ten_toDigits]
  rw [if_pos v.toNat_lt, UInt32.ofNat_toNat]

/-- What was written reads back. -/
theorem read?_digits (v : Version) : read? v.digits = some v := by
  rw [read?]
  · exact readDigits?_digits v
  · intro cs h
    have : ('+' : Char).isDigit = true := isDigit_of_mem_digits (v := v) (by rw [h]; simp)
    exact absurd this (by decide)

end Version

end TopicCipher
