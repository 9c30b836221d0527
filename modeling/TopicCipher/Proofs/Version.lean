import Mathlib.Data.List.Basic
import Mathlib.Data.List.Induction
import TopicCipher.Version

/-!
# The spellings of a version

A version is written in one way and read in many: a plus sign may stand in front of it, and any
number of zeros.  `Spells` says so without the reader, which accepts exactly the spellings of a
version.

The point is that decimal digits have no other freedom than zeros in front.  The induction goes
along the digits from the left: as long as all of them were zeros, the next digit begins the number
anew, and after that every digit is appended to it.

* `exists_zeros_of_isDigit`: what a run of digits consists of.
* `read?_eq_some_iff`: what the reader accepts.
-/

namespace TopicCipher.Version

/-- The characters spell the version: a plus sign or none, zeros, and its digits. -/
def Spells (cs : List Char) (v : Version) : Prop :=
  ∃ sign ∈ [[], ['+']], ∃ zeros, cs = sign ++ (List.replicate zeros '0' ++ v.digits)

/-- A decimal digit is the digit of a number below ten. -/
theorem exists_digitChar_of_isDigit {c : Char} (h : c.isDigit = true) :
    ∃ d < 10, c = Nat.digitChar d := by
  rw [Char.isDigit, Bool.and_eq_true, decide_eq_true_eq, decide_eq_true_eq] at h
  have hlow : 48 ≤ c.toNat := h.1
  have hhigh : c.toNat ≤ 57 := h.2
  have hdigits : ∀ d < 10, Char.ofNat (d + 48) = Nat.digitChar d := by decide
  refine ⟨c.toNat - 48, by omega, ?_⟩
  rw [← hdigits _ (by omega), Nat.sub_add_cancel hlow, Char.ofNat_toNat]

/-- **A run of digits is the digits of its value, with zeros in front.** -/
theorem exists_zeros_of_isDigit {cs : List Char} (hne : cs ≠ [])
    (hdigits : ∀ c ∈ cs, c.isDigit = true) :
    ∃ zeros, cs = List.replicate zeros '0' ++ Nat.toDigits 10 (Nat.ofDigitChars 10 cs 0) := by
  induction cs using List.reverseRecOn with
  | nil => exact absurd rfl hne
  | append_singleton cs c ih =>
    rw [List.forall_mem_append, List.forall_mem_singleton] at hdigits
    obtain ⟨d, hd, rfl⟩ := exists_digitChar_of_isDigit hdigits.2
    rw [Nat.ofDigitChars_append, Nat.ofDigitChars_cons_digitChar_of_lt_ten hd, Nat.ofDigitChars_nil]
    by_cases hnil : cs = []
    · subst hnil
      refine ⟨0, ?_⟩
      rw [Nat.ofDigitChars_nil, Nat.mul_zero, Nat.zero_add, Nat.toDigits_of_lt_base hd]
      rfl
    · obtain ⟨zeros, hcs⟩ := ih hnil hdigits.1
      by_cases hvalue : Nat.ofDigitChars 10 cs 0 = 0
      · rw [hvalue, Nat.toDigits_zero, ← List.replicate_succ'] at hcs
        refine ⟨zeros + 1, ?_⟩
        rw [hvalue, Nat.mul_zero, Nat.zero_add, Nat.toDigits_of_lt_base hd, ← hcs]
      · refine ⟨zeros, ?_⟩
        rw [← Nat.toDigits_append_toDigits (by decide) (Nat.pos_of_ne_zero hvalue) hd,
          ← List.append_assoc, ← hcs, Nat.toDigits_of_lt_base hd]

theorem readDigits?_eq_some_iff {cs : List Char} {v : Version} :
    readDigits? cs = some v ↔ ∃ zeros, cs = List.replicate zeros '0' ++ v.digits := by
  constructor
  · intro h
    rw [readDigits?, Option.ite_none_right_eq_some] at h
    obtain ⟨⟨hne, hall⟩, h⟩ := h
    rw [Option.ite_none_right_eq_some, Option.some.injEq] at h
    obtain ⟨hlt, rfl⟩ := h
    obtain ⟨zeros, hcs⟩ := exists_zeros_of_isDigit hne (List.all_eq_true.mp hall)
    refine ⟨zeros, ?_⟩
    rwa [digits, UInt32.toNat_ofNat_of_lt' hlt]
  · rintro ⟨zeros, rfl⟩
    have hzero : ('0' : Char).isDigit = true := by decide
    have hall : (List.replicate zeros '0' ++ v.digits).all Char.isDigit = true := by
      refine List.all_eq_true.mpr (List.forall_mem_append.mpr ⟨fun c hc => ?_, fun c hc => ?_⟩)
      · rwa [List.eq_of_mem_replicate hc]
      · exact isDigit_of_mem_digits hc
    have hvalue : Nat.ofDigitChars 10 (List.replicate zeros '0' ++ v.digits) 0 = v.toNat := by
      rw [Nat.ofDigitChars_append, Nat.ofDigitChars_replicate_zero, Nat.mul_zero, digits,
        Nat.ofDigitChars_ten_toDigits]
    rw [readDigits?, if_pos ⟨List.append_ne_nil_of_right_ne_nil _ (digits_ne_nil v), hall⟩]
    simp only [hvalue, if_pos v.toNat_lt, UInt32.ofNat_toNat]

/-- **The reader accepts exactly the spellings of a version.** -/
theorem read?_eq_some_iff {cs : List Char} {v : Version} : read? cs = some v ↔ Spells cs v := by
  have hspells : Spells cs v ↔
      (∃ zeros, cs = List.replicate zeros '0' ++ v.digits) ∨
        ∃ zeros, cs = '+' :: (List.replicate zeros '0' ++ v.digits) := by
    simp [Spells]
  rw [hspells, read?.eq_def]
  split
  next cs =>
    rw [readDigits?_eq_some_iff]
    constructor
    · rintro ⟨zeros, rfl⟩
      exact .inr ⟨zeros, rfl⟩
    · rintro (⟨zeros, hcs⟩ | ⟨zeros, hcs⟩)
      · -- a run of digits does not begin with a plus sign
        have hplus := (readDigits?_eq_some_iff.mpr ⟨zeros, hcs⟩ : readDigits? ('+' :: cs) = some v)
        simp [readDigits?] at hplus
      · exact ⟨zeros, (List.cons.inj hcs).2⟩
  next hplus =>
    rw [readDigits?_eq_some_iff, or_iff_left]
    rintro ⟨zeros, hcs⟩
    exact hplus _ hcs

/-- The digits of a version alone are a spelling. -/
theorem spells_text (v : Version) : Spells v.text.toList v := by
  refine ⟨[], List.mem_cons_self, 0, ?_⟩
  rw [text, String.toList_ofList]
  rfl

/-- A spelling has digits and perhaps a plus sign in it. -/
theorem Spells.notMem {cs : List Char} {v : Version} (h : Spells cs v) {c : Char}
    (hdigit : c.isDigit = false) (hplus : c ≠ '+') : c ∉ cs := by
  obtain ⟨sign, hsign, zeros, rfl⟩ := h
  have hzero : c ≠ '0' := by
    rintro rfl
    exact absurd hdigit (by decide)
  have hdigits : c ∉ v.digits := fun hmem =>
    absurd ((isDigit_of_mem_digits hmem).symm.trans hdigit) (by decide)
  rcases List.mem_pair.mp hsign with rfl | rfl <;>
    simp [hzero, hplus, hdigits, List.mem_replicate]

end TopicCipher.Version
