import Mathlib.Algebra.Order.Ring.Nat
import Mathlib.Data.Int.Order.Basic
import Mathlib.Data.Nat.SuccPred
import Mathlib.Tactic.ByContra
import TopicCipher.Time.Calendar

/-!
# The calendar counts days

Every day has a date that exists, and the number of that date is the day.  The year is found by one
guess and one correction, so the bounds of a year come first; the month is found by walking over the
lengths of the months, so what the walk finds is stated for any list of lengths.

* `yearStart_yearOf_le`, `lt_yearStart_yearOf`: a day lies in its year.
* `exists_monthOf_eq`: where the walk over the months ends.
* `day_ofDay`, `exists?_ofDay`: the date of a day.
-/

namespace TopicCipher.Calendar

/-! ## Years -/

/-- A leap year has one day more. -/
theorem yearStart_succ (year : Int) :
    yearStart (year + 1) = yearStart year + 365 + if isLeapYear year then 1 else 0 := by
  simp only [yearStart, isLeapYear, Bool.and_eq_true, Bool.or_eq_true, decide_eq_true_eq]
  split <;> omega

/-- Four hundred years have 146097 days, so a year begins within two days of what the guess
assumes. -/
theorem yearStart_bounds (year : Int) :
    146097 * year - 396 ≤ 400 * yearStart year ∧ 400 * yearStart year ≤ 146097 * year + 699 := by
  simp only [yearStart]
  omega

/-- A day does not come before its year. -/
theorem yearStart_yearOf_le (day : Int) : yearStart (yearOf day) ≤ day := by
  have hguess := yearStart_bounds (400 * day / 146097 - 1)
  simp only [yearOf]
  split
  · omega
  · split <;> omega

/-- A day comes before the next year. -/
theorem lt_yearStart_yearOf (day : Int) : day < yearStart (yearOf day + 1) := by
  have hguess := yearStart_bounds (400 * day / 146097 + 1 + 1)
  simp only [yearOf]
  split
  · simpa using ‹_›
  · split <;> omega

/-- Years begin one after the other. -/
theorem yearStart_mono {year year' : Int} (h : year ≤ year') :
    yearStart year ≤ yearStart year' := by
  simp only [yearStart]
  omega

/-- The year of a day is found by comparing it with the first days of years. -/
theorem le_yearOf_iff {year day : Int} : year ≤ yearOf day ↔ yearStart year ≤ day := by
  constructor
  · intro h
    exact (yearStart_mono h).trans (yearStart_yearOf_le day)
  · intro h
    by_contra hlt
    have hnext := yearStart_mono (show yearOf day + 1 ≤ year by omega)
    have hday := lt_yearStart_yearOf day
    omega

/-! ## Months -/

theorem daysBefore_eq_sum (lengths : List Nat) (month : Nat) :
    daysBefore lengths month = (lengths.take (month - 1)).sum := by
  rw [daysBefore, List.sum_eq_foldl]

/-- The walk over the months ends in the month that the day lies in. -/
theorem exists_monthOf_eq (month : Nat) {lengths : List Nat} {dayOfYear : Nat}
    (h : dayOfYear < lengths.sum) :
    ∃ i < lengths.length, (monthOf lengths month dayOfYear).1 = month + i ∧
      1 ≤ (monthOf lengths month dayOfYear).2 ∧
      (monthOf lengths month dayOfYear).2 ≤ lengths.getD i 0 ∧
      (lengths.take i).sum + ((monthOf lengths month dayOfYear).2 - 1) = dayOfYear := by
  induction lengths generalizing month dayOfYear with
  | nil => exact absurd h (by simp)
  | cons length rest ih =>
    rw [monthOf]
    split
    next hfirst =>
      refine ⟨0, Nat.zero_lt_succ _, rfl, Nat.le_add_left 1 _, ?_, ?_⟩
      · simpa using hfirst
      · simp
    next hlater =>
      have hrest : dayOfYear - length < rest.sum := by
        rw [List.sum_cons] at h
        omega
      obtain ⟨i, hi, hmonth, hpos, hle, hsum⟩ := ih (month + 1) hrest
      refine ⟨i + 1, Nat.succ_lt_succ hi, by omega, hpos, by simpa using hle, ?_⟩
      rw [List.take_succ_cons, List.sum_cons]
      omega

theorem sum_monthLengths (year : Int) :
    ((monthLengths year).sum : Int) = yearStart (year + 1) - yearStart year := by
  rw [yearStart_succ]
  simp only [monthLengths, List.sum_cons, List.sum_nil]
  split <;> omega

/-- What the date of a day is made of. -/
theorem exists_ofDay_eq (day : Int) :
    ∃ i dayOfMonth, Date.ofDay day = ⟨yearOf day, 1 + i, dayOfMonth⟩ ∧ i < 12 ∧ 1 ≤ dayOfMonth ∧
      dayOfMonth ≤ (monthLengths (yearOf day)).getD i 0 ∧
      (((monthLengths (yearOf day)).take i).sum + (dayOfMonth - 1) : Nat) =
        day - yearStart (yearOf day) := by
  have hfirst := yearStart_yearOf_le day
  have hlast := lt_yearStart_yearOf day
  have hyear := sum_monthLengths (yearOf day)
  obtain ⟨i, hi, hmonth, hpos, hle, hsum⟩ := exists_monthOf_eq 1
    (show (day - yearStart (yearOf day)).toNat < (monthLengths (yearOf day)).sum by omega)
  refine ⟨i, _, ?_, hi, hpos, hle, by omega⟩
  rw [Date.ofDay, ← hmonth]

theorem monthLengths_getD_le (year : Int) (i : Nat) : (monthLengths year).getD i 0 ≤ 31 := by
  rw [List.getD_eq_getElem?_getD]
  rcases h : (monthLengths year)[i]? with _ | length
  · exact Nat.zero_le 31
  · have hmem := List.mem_of_getElem? h
    simp only [monthLengths, List.mem_cons, List.not_mem_nil, or_false] at hmem
    rw [Option.getD_some]
    split at hmem <;> omega

/-! ## Dates -/

/-- **The number of the date of a day is the day.** -/
theorem day_ofDay (day : Int) : (Date.ofDay day).day = day := by
  obtain ⟨i, dayOfMonth, hdate, -, -, -, hsum⟩ := exists_ofDay_eq day
  rw [hdate, Date.day, daysBefore_eq_sum]
  dsimp only
  rw [Nat.add_sub_cancel_left]
  omega

/-- The date of a day exists. -/
theorem exists?_ofDay (day : Int) : (Date.ofDay day).exists? = true := by
  obtain ⟨i, dayOfMonth, hdate, hi, hpos, hle, -⟩ := exists_ofDay_eq day
  rw [hdate]
  simp only [Date.exists?, Bool.and_eq_true, decide_eq_true_eq, Nat.add_sub_cancel_left]
  exact ⟨⟨⟨Nat.le_add_right 1 i, by omega⟩, hpos⟩, hle⟩

/-- Months and days of the month have at most two digits. -/
theorem ofDay_lt (day : Int) :
    (Date.ofDay day).month < 100 ∧ (Date.ofDay day).dayOfMonth < 100 := by
  obtain ⟨i, dayOfMonth, hdate, hi, -, hle, -⟩ := exists_ofDay_eq day
  have hlength := monthLengths_getD_le (yearOf day) i
  rw [hdate]
  dsimp only
  omega

theorem year_ofDay (day : Int) : (Date.ofDay day).year = yearOf day := rfl

end TopicCipher.Calendar
