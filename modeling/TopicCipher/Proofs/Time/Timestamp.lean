import TopicCipher.Proofs.Time.Calendar
import TopicCipher.Time.Timestamp

/-!
# Reading timestamps back

A timestamp of a year with four digits reads back, to the nanosecond.  The other years are written
with a sign, and no timestamp that begins with a sign can be read.

One thing is not said by a timestamp.  An instant may reach into a leap second after any second, but
leap seconds are written as second `60`, which only the last second of a minute has next to it.
Anywhere else a timestamp says the second after that: `Instant.carry`.

* `number?_paddedDigits`, `fraction?_fractionChars`, `date?_dateChars`, `clock?_clockChars`: the
  parts of a timestamp.
* `read?_chars_eq_some_iff`: what a timestamp says.
* `read?_chars_of_read?`: what was read from a timestamp is written as it reads.
* `isProper_of_read?`: whatever is read, leap seconds are at the end of a minute.
-/

namespace TopicCipher

namespace Instant

/-- The year that an instant lies in. -/
def year (t : Instant) : Int := Calendar.yearOf (t.second / 86400 + Calendar.unixEpoch)

/-- Years `0` to `9999` have four digits. -/
def HasFourDigitYear (t : Instant) : Prop := 0 ≤ t.year ∧ t.year ≤ 9999

/-- An instant that reaches into a leap second lies at the end of a minute. -/
def IsProper (t : Instant) : Prop := t.isLeap = true → t.second % 60 = 59

/-- What reaches into a leap second where there is none, belongs to the next second. -/
def carry (t : Instant) : Instant :=
  if t.isLeap = true ∧ t.second % 60 ≠ 59 then
    ⟨t.second + 1, t.nano - nanosPerSecond, lt_of_le_of_lt (Nat.sub_le _ _) t.nano_lt⟩
  else t

theorem carry_of_isProper {t : Instant} (h : t.IsProper) : t.carry = t :=
  if_neg fun hleap => hleap.2 (h hleap.1)

theorem isProper_carry (t : Instant) : t.carry.IsProper := by
  have hnano := t.nano_lt
  rw [carry]
  split
  · intro hleap
    simp only [isLeap, decide_eq_true_eq] at hleap
    omega
  next hleap =>
    intro h
    by_contra hsecond
    exact hleap ⟨h, hsecond⟩

/-- A minute does not lie in two years. -/
theorem year_carry (t : Instant) : t.carry.year = t.year := by
  rw [carry]
  split
  next hleap =>
    have hday : (t.second + 1) / 86400 = t.second / 86400 := by
      have := hleap.2
      omega
    simp only [year, hday]
  next => rfl

/-- The year of an instant is found by comparing seconds. -/
theorem le_year_iff {t : Instant} {year : Int} :
    year ≤ t.year ↔ (Calendar.yearStart year - Calendar.unixEpoch) * 86400 ≤ t.second := by
  rw [Instant.year, Calendar.le_yearOf_iff]
  omega

theorem hasFourDigitYear_iff {t : Instant} :
    t.HasFourDigitYear ↔ -62167219200 ≤ t.second ∧ t.second < 253402300800 := by
  have hlast : t.year ≤ 9999 ↔ ¬ (10000 : Int) ≤ t.year := by omega
  have hzero : (Calendar.yearStart 0 - Calendar.unixEpoch) * 86400 = -62167219200 := by decide
  have hten : (Calendar.yearStart 10000 - Calendar.unixEpoch) * 86400 = 253402300800 := by decide
  rw [HasFourDigitYear, hlast, le_year_iff, le_year_iff, hzero, hten, not_le]

instance (t : Instant) : Decidable t.IsProper :=
  inferInstanceAs (Decidable (t.isLeap = true → t.second % 60 = 59))

instance (t : Instant) : Decidable t.HasFourDigitYear :=
  decidable_of_iff _ hasFourDigitYear_iff.symm

end Instant

namespace Timestamp

/-! ## Numbers -/

theorem length_paddedDigits {width n : Nat} (hwidth : 0 < width) (h : n < 10 ^ width) :
    (paddedDigits width n).length = width := by
  have hle := (Nat.length_toDigits_le_iff (by decide : 1 < 10) hwidth).mpr h
  rw [paddedDigits, List.length_append, List.length_replicate]
  omega

theorem isDigit_of_mem_paddedDigits {width n : Nat} {c : Char} (h : c ∈ paddedDigits width n) :
    c.isDigit = true := by
  rcases List.mem_append.mp h with h | h
  · rw [(List.mem_replicate.mp h).2]
    decide
  · exact Nat.isDigit_of_mem_toDigits (by decide) (by decide) h

theorem ofDigitChars_paddedDigits (width n : Nat) :
    Nat.ofDigitChars 10 (paddedDigits width n) 0 = n := by
  rw [paddedDigits, Nat.ofDigitChars_append, Nat.ofDigitChars_replicate_zero, Nat.mul_zero,
    Nat.ofDigitChars_ten_toDigits]

/-- A number reads back if it has no more digits than there is room for. -/
theorem number?_paddedDigits {width n : Nat} (hwidth : 0 < width) (h : n < 10 ^ width)
    (rest : List Char) : number? width (paddedDigits width n ++ rest) = some (n, rest) := by
  have hlength := length_paddedDigits hwidth h
  have hdigits : (paddedDigits width n).all Char.isDigit = true :=
    List.all_eq_true.mpr fun _ hc => isDigit_of_mem_paddedDigits hc
  simp only [number?, List.take_left' hlength, List.drop_left' hlength]
  rw [if_pos ⟨hlength, hdigits⟩, ofDigitChars_paddedDigits]

/-! ## Dates -/

theorem date?_dateChars {day : Int} (hyear : 0 ≤ Calendar.yearOf day ∧ Calendar.yearOf day ≤ 9999)
    (rest : List Char) :
    strict.date? (dateChars (.ofDay day) ++ rest) = some (.ofDay day, rest) := by
  obtain ⟨hmonth, hday⟩ := Calendar.ofDay_lt day
  have hexists := Calendar.exists?_ofDay day
  have hyearOf : (Calendar.Date.ofDay day).year = Calendar.yearOf day := rfl
  rw [← hyearOf] at hyear
  generalize Calendar.Date.ofDay day = date at hmonth hday hexists hyear
  have hdigits : yearDigits date.year = paddedDigits 4 date.year.natAbs := by
    rw [yearDigits, if_neg (by omega), if_neg (by omega)]
  have hnat : (date.year.natAbs : Int) = date.year := Int.natAbs_of_nonneg hyear.1
  have hdate :
      (⟨(date.year.natAbs : Int), date.month, date.dayOfMonth⟩ : Calendar.Date) = date := by
    rw [hnat]
  simp only [Format.date?, strict, Option.map_some, dateChars, hdigits, List.append_assoc,
    List.cons_append,
    number?_paddedDigits (by decide : 0 < 4) (by omega : date.year.natAbs < 10 ^ 4), oneOf?,
    List.mem_singleton, if_true, Option.bind_eq_bind, Option.bind_some,
    number?_paddedDigits (by decide : 0 < 2) hmonth,
    number?_paddedDigits (by decide : 0 < 2) hday, hdate, hexists]

/-- No date begins with a sign. -/
theorem date?_eq_none_of_sign {sign : Char} (h : sign.isDigit = false) (rest : List Char) :
    strict.date? (sign :: rest) = none := by
  have hyear : number? 4 (sign :: rest) = none := by
    simp [number?, h]
  simp only [Format.date?, strict, hyear, Option.map_none, Option.bind_eq_bind, Option.bind_none]

/-! ## Times of day -/

theorem fraction?_digits {width n : Nat} (hwidth : 0 < width) (hle : width ≤ 9)
    (h : n < 10 ^ width) (rest : List Char) :
    fraction? ('.' :: (paddedDigits width n ++ 'Z' :: rest)) =
      some (n * 10 ^ (9 - width), 'Z' :: rest) := by
  have hlength := length_paddedDigits hwidth h
  have hdigit : ∀ c ∈ paddedDigits width n, c.isDigit = true :=
    fun _ hc => isDigit_of_mem_paddedDigits hc
  have hzeros : (paddedDigits width n ++ List.replicate 9 '0').take 9 =
      paddedDigits width n ++ List.replicate (9 - width) '0' := by
    rw [List.take_append, List.take_of_length_le (by omega), hlength, List.take_replicate,
      Nat.min_eq_left (by omega)]
  have hvalue : Nat.ofDigitChars 10 ((paddedDigits width n ++ List.replicate 9 '0').take 9) 0 =
      n * 10 ^ (9 - width) := by
    rw [hzeros, Nat.ofDigitChars_append, ofDigitChars_paddedDigits,
      Nat.ofDigitChars_replicate_zero, Nat.mul_comm]
  have htake : (paddedDigits width n ++ 'Z' :: rest).takeWhile Char.isDigit =
      paddedDigits width n := by
    rw [List.takeWhile_append_of_pos hdigit, List.takeWhile_cons_of_neg (by decide),
      List.append_nil]
  have hdrop : (paddedDigits width n ++ 'Z' :: rest).dropWhile Char.isDigit = 'Z' :: rest := by
    rw [List.dropWhile_append_of_pos hdigit, List.dropWhile_cons_of_neg (by decide)]
  rw [fraction?, htake, hdrop]
  split
  next hnil =>
    rw [hnil] at hlength
    exact absurd hlength (by simp; omega)
  next => rw [hvalue]

theorem fraction?_fractionChars {nano : Nat} (h : nano < nanosPerSecond) (rest : List Char) :
    fraction? (fractionChars nano ++ 'Z' :: rest) = some (nano, 'Z' :: rest) := by
  have hbound : nano < 1000000000 := h
  rw [fractionChars]
  split
  next hzero =>
    rw [hzero]
    rfl
  next =>
    split
    next hmillis =>
      rw [List.cons_append, fraction?_digits (by decide) (by decide) (by omega)]
      rw [show nano / 1000000 * 10 ^ (9 - 3) = nano by omega]
    next =>
      split
      next hmicros =>
        rw [List.cons_append, fraction?_digits (by decide) (by decide) (by omega)]
        rw [show nano / 1000 * 10 ^ (9 - 6) = nano by omega]
      next =>
        rw [List.cons_append, fraction?_digits (by decide) (by decide) (by omega)]
        rw [show nano * 10 ^ (9 - 9) = nano by omega]

/-- A time of day reads back, but for a leap second where there is none. -/
theorem clock?_clockChars {second nano : Nat} (hsecond : second < 86400)
    (hnano : nano < 2 * nanosPerSecond) (rest : List Char) :
    strict.clock? (clockChars second nano ++ 'Z' :: rest) =
      some (if nanosPerSecond ≤ nano ∧ second % 60 ≠ 59 then (second + 1, nano - nanosPerSecond)
        else (second, nano), 'Z' :: rest) := by
  have hfraction := fraction?_fractionChars (Nat.mod_lt nano (by decide : 0 < nanosPerSecond)) rest
  simp only [nanosPerSecond] at hnano hfraction ⊢
  simp only [Format.clock?, strict, clockChars, List.append_assoc, List.cons_append, oneOf?,
    List.mem_singleton, if_true, Option.bind_eq_bind, Option.bind_some, hfraction,
    number?_paddedDigits (by decide : 0 < 2) (by omega : second / 3600 < 10 ^ 2),
    number?_paddedDigits (by decide : 0 < 2) (by omega : second / 60 % 60 < 10 ^ 2),
    number?_paddedDigits (by decide : 0 < 2)
      (by omega : second % 60 + nano / 1000000000 < 10 ^ 2)]
  rw [if_pos (by omega)]
  split
  next hsixty =>
    rw [if_neg (by omega), show second / 3600 * 3600 + second / 60 % 60 * 60 + 59 = second by omega,
      show nano % 1000000000 + 1000000000 = nano by omega]
  next hsixty =>
    split
    next hleap =>
      rw [show second / 3600 * 3600 + second / 60 % 60 * 60 + (second % 60 + nano / 1000000000) =
          second + 1 by omega, show nano % 1000000000 = nano - 1000000000 by omega]
    next hleap =>
      rw [show second / 3600 * 3600 + second / 60 % 60 * 60 + (second % 60 + nano / 1000000000) =
          second by omega, show nano % 1000000000 = nano by omega]

/-! ## Timestamps -/

theorem read?_chars {t : Instant} (h : t.HasFourDigitYear) : read? (chars t) = some t.carry := by
  have hnano := t.nano_lt
  have hdate := date?_dateChars h
  have hclock := clock?_clockChars (by omega : (t.second % 86400).toNat < 86400) hnano []
  have hoffset : strict.offset? ['Z'] = some (0, []) := rfl
  have hgap (cs : List Char) : strict.gap cs = cs := rfl
  simp only [read?, Format.read?, chars, List.append_assoc, List.cons_append, hdate, oneOf?,
    List.mem_cons, List.not_mem_nil, or_false, true_or, if_true, Option.bind_eq_bind,
    Option.bind_some, hclock, hoffset, hgap, List.isEmpty_nil, Calendar.day_ofDay]
  have hmod : ((t.second % 86400).toNat % 60 = 59) ↔ t.second % 60 = 59 := by omega
  simp only [Instant.carry, Instant.isLeap, decide_eq_true_eq]
  by_cases hleap : nanosPerSecond ≤ t.nano ∧ t.second % 60 ≠ 59
  · rw [if_pos hleap, if_pos (by rwa [ne_eq, hmod]), instant?, dif_pos (by omega)]
    simp only [Option.some.injEq, Instant.mk.injEq, and_true]
    omega
  · rw [if_neg hleap, if_neg (by rwa [ne_eq, hmod]), instant?, dif_pos hnano]
    obtain ⟨second, nano, hnano⟩ := t
    simp only [Option.some.injEq, Instant.mk.injEq, and_true]
    omega

/-- Years without four digits begin with a sign. -/
theorem exists_sign_of_yearDigits {year : Int} (h : ¬ (0 ≤ year ∧ year ≤ 9999)) :
    ∃ sign digits, yearDigits year = sign :: digits ∧ sign.isDigit = false := by
  rw [yearDigits]
  split
  · exact ⟨'-', _, rfl, by decide⟩
  · rw [if_pos (by omega)]
    exact ⟨'+', _, rfl, by decide⟩

theorem read?_chars_eq_none {t : Instant} (h : ¬ t.HasFourDigitYear) : read? (chars t) = none := by
  obtain ⟨sign, digits, hyear, hsign⟩ := exists_sign_of_yearDigits h
  rw [Instant.year, ← Calendar.year_ofDay] at hyear
  rw [read?, Format.read?, chars, dateChars, hyear]
  simp only [List.cons_append, date?_eq_none_of_sign hsign, Option.bind_eq_bind, Option.bind_none]

/-- **What a timestamp says**: the instant that it was written for, with what is beyond its second
carried over, if the year has four digits. -/
theorem read?_chars_eq_some_iff {t u : Instant} :
    read? (chars t) = some u ↔ t.HasFourDigitYear ∧ u = t.carry := by
  by_cases h : t.HasFourDigitYear
  · rw [read?_chars h, Option.some.injEq, @eq_comm _ u]
    exact (and_iff_right h).symm
  · rw [read?_chars_eq_none h]
    simp [h]

/-! ## What any timestamp says -/

/-- So many digits say a number that has no more digits. -/
theorem ofDigitChars_lt {cs : List Char} (h : ∀ c ∈ cs, c.isDigit = true) :
    Nat.ofDigitChars 10 cs 0 < 10 ^ cs.length := by
  induction cs with
  | nil => simp
  | cons c cs ih =>
    have hrest := ih fun d hd => h d (List.mem_cons_of_mem c hd)
    have hdigit := h c List.mem_cons_self
    simp only [Char.isDigit, Bool.and_eq_true, decide_eq_true_eq, UInt32.le_iff_toNat_le] at hdigit
    have hvalue : c.toNat - '0'.toNat ≤ 9 := by
      have : c.toNat ≤ 57 := hdigit.2
      simp only [Char.reduceToNat]
      omega
    rw [Nat.ofDigitChars_cons, Nat.ofDigitChars_eq_ofDigitChars_zero, List.length_cons,
      Nat.pow_succ, Nat.mul_zero, Nat.zero_add]
    have := Nat.mul_le_mul_left (10 ^ cs.length) hvalue
    omega

theorem fraction?_lt {cs rest : List Char} {nano : Nat} (h : fraction? cs = some (nano, rest)) :
    nano < nanosPerSecond := by
  unfold fraction? at h
  split at h
  next cs =>
    split at h
    · exact absurd h (by simp)
    next =>
      simp only [Option.some.injEq, Prod.mk.injEq] at h
      obtain ⟨rfl, -⟩ := h
      have hdigit : ∀ c ∈ (cs.takeWhile Char.isDigit ++ List.replicate 9 '0').take 9,
          c.isDigit = true := by
        intro c hc
        rcases List.mem_append.mp (List.mem_of_mem_take hc) with hc | hc
        · exact List.all_eq_true.mp List.all_takeWhile c hc
        · rw [(List.mem_replicate.mp hc).2]
          decide
      refine lt_of_lt_of_le (ofDigitChars_lt hdigit) ?_
      exact Nat.pow_le_pow_right (by decide) (List.length_take_le 9 _)
  next =>
    simp only [Option.some.injEq, Prod.mk.injEq] at h
    rw [← h.1]
    decide

/-- A time of day is in a leap second only at the end of a minute. -/
theorem clock?_proper {f : Format} {cs rest : List Char} {second nano : Nat}
    (h : f.clock? cs = some ((second, nano), rest)) (hleap : nanosPerSecond ≤ nano) :
    second % 60 = 59 := by
  simp only [Format.clock?, Option.bind_eq_bind, Option.bind_eq_some_iff] at h
  obtain ⟨⟨hour, _⟩, -, _, -, ⟨minute, _⟩, -, _, -, ⟨sec, _⟩, -, ⟨part, _⟩, hpart, h⟩ := h
  have hlt := fraction?_lt hpart
  dsimp only at h
  split at h
  · split at h
    · simp only [Option.some.injEq, Prod.mk.injEq] at h
      omega
    · simp only [Option.some.injEq, Prod.mk.injEq] at h
      omega
  · exact absurd h (by simp)

/-- Offsets are whole minutes. -/
theorem offset?_minutes {f : Format} {cs rest : List Char} {offset : Int}
    (h : f.offset? cs = some (offset, rest)) : offset % 60 = 0 := by
  have hspan : ∀ {cs rest : List Char} {n : Nat}, f.offsetSpan? cs = some (n, rest) →
      n % 60 = 0 := by
    intro cs rest n h
    simp only [Format.offsetSpan?, Option.bind_eq_bind, Option.bind_eq_some_iff] at h
    obtain ⟨⟨hour, _⟩, -, _, -, ⟨minute, _⟩, -, h⟩ := h
    dsimp only at h
    split at h
    · simp only [Option.some.injEq, Prod.mk.injEq] at h
      omega
    · exact absurd h (by simp)
  unfold Format.offset? at h
  split at h
  · simp only [Option.some.injEq, Prod.mk.injEq] at h
    omega
  · obtain ⟨⟨n, _⟩, hn, h⟩ := Option.map_eq_some_iff.mp h
    have := hspan hn
    simp only [Prod.mk.injEq] at h
    omega
  · obtain ⟨⟨n, _⟩, hn, h⟩ := Option.map_eq_some_iff.mp h
    have := hspan hn
    simp only [Prod.mk.injEq] at h
    omega
  · obtain ⟨⟨n, _⟩, hn, h⟩ := Option.map_eq_some_iff.mp h
    have := hspan hn
    simp only [Prod.mk.injEq] at h
    omega
  · exact absurd h (by simp)

/-- **Whatever is read, leap seconds are at the end of a minute.** -/
theorem Format.isProper_of_read? {f : Format} {cs : List Char} {t : Instant}
    (h : f.read? cs = some t) : t.IsProper := by
  intro hleap
  simp only [Instant.isLeap, decide_eq_true_eq] at hleap
  simp only [Format.read?, Option.bind_eq_bind, Option.bind_eq_some_iff] at h
  obtain ⟨⟨date, _⟩, -, _, -, ⟨⟨second, nano⟩, _⟩, hclock, ⟨offset, _⟩, hoffset, h⟩ := h
  have hminutes := offset?_minutes hoffset
  dsimp only at h
  split at h
  · rw [instant?] at h
    split at h
    · obtain rfl := Option.some.inj h
      have hsecond := clock?_proper hclock hleap
      show ((date.day - Calendar.unixEpoch) * 86400 + second - offset) % 60 = 59
      omega
    · exact absurd h (by simp)
  · exact absurd h (by simp)

theorem isProper_of_read? {cs : List Char} {t : Instant} (h : read? cs = some t) : t.IsProper :=
  Format.isProper_of_read? h

end Timestamp

end TopicCipher
