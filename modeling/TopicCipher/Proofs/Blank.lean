import Mathlib.Data.List.DropRight
import Mathlib.Data.List.TakeWhile
import TopicCipher.Text.Blank

/-!
# Stripping blanks

Stripping twice is stripping once, and what is not blank is not stripped.
-/

namespace TopicCipher.Text

variable {p : Char → Bool} {cs : List Char}

theorem dropEndWhile_eq_rdropWhile (p : Char → Bool) (cs : List Char) :
    dropEndWhile p cs = cs.rdropWhile p := rfl

theorem dropEndWhile_eq_self (h : ∀ c ∈ cs, p c = false) : dropEndWhile p cs = cs := by
  rw [dropEndWhile_eq_rdropWhile, List.rdropWhile_eq_self_iff]
  intro hne
  simp [h _ (List.getLast_mem hne)]

/-- What is left after stripping the front still begins alike when the end is stripped. -/
theorem dropWhile_dropEndWhile_dropWhile (p : Char → Bool) (cs : List Char) :
    (dropEndWhile p (cs.dropWhile p)).dropWhile p = dropEndWhile p (cs.dropWhile p) := by
  rw [dropEndWhile_eq_rdropWhile]
  have hbegin := List.rdropWhile_prefix p (cs.dropWhile p)
  rw [List.dropWhile_eq_self_iff]
  intro hne
  have hpos : 0 < (cs.dropWhile p).length := lt_of_lt_of_le hne hbegin.length_le
  rw [hbegin.getElem]
  exact List.dropWhile_get_zero_not p cs hpos

/-- Stripping blanks twice is stripping them once. -/
@[simp] theorem trimChars_trimChars (cs : List Char) : trimChars (trimChars cs) = trimChars cs := by
  rw [trimChars, trimChars, dropWhile_dropEndWhile_dropWhile]
  exact List.rdropWhile_idempotent isBlank _

@[simp] theorem trim_trim (text : String) : trim (trim text) = trim text := by
  rw [trim, toList_trim, trimChars_trimChars, trim]

/-- What is not blank is still there after stripping. -/
theorem mem_trim_of_mem {text : String} {c : Char} (hmem : c ∈ text.toList)
    (hc : isBlank c = false) : c ∈ (trim text).toList := by
  have hdrop {cs : List Char} (h : c ∈ cs) : c ∈ cs.dropWhile isBlank := by
    rw [← List.takeWhile_append_dropWhile (p := isBlank) (l := cs), List.mem_append] at h
    rcases h with h | h
    · exact absurd (List.mem_takeWhile_imp h) (by rw [hc]; decide)
    · exact h
  rw [toList_trim, trimChars, dropEndWhile, List.mem_reverse]
  exact hdrop (List.mem_reverse.mpr (hdrop hmem))

theorem isBlank_of_isDigit {c : Char} (h : c.isDigit = true) : isBlank c = false := by
  simp only [Char.isDigit, Bool.and_eq_true, decide_eq_true_eq, ge_iff_le, UInt32.le_iff_toNat_le]
    at h
  obtain ⟨hlow, hhigh⟩ := h
  have hlow : 48 ≤ c.toNat := hlow
  have hhigh : c.toNat ≤ 57 := hhigh
  simp only [isBlank, Bool.or_eq_false_iff, Bool.and_eq_false_iff, decide_eq_false_iff_not,
    beq_eq_false_iff_ne]
  omega

end TopicCipher.Text
