import TopicCipher.Proofs.Time.Timestamp
import TopicCipher.Time.Expiry

/-!
# Adding lifetimes to instants

Instants are ordered by second and then by nanosecond, so a leap second comes between two seconds
of the calendar.  Adding a span to an instant forgets leap seconds, and so it does not respect the
order: from inside a leap second, a sum may come before the same sum from the second before it.

A bound on sums therefore needs a place on a timeline that has no leap seconds.  `Instant.place`
puts all of a leap second at the moment when it is over.  That respects the order, and adding a span
never goes farther than the span.  `Instant.later` goes exactly that far; outside leap seconds it is
the sum (`add_eq_later`).

* `place_mono`, `le_ofUnixNanos_iff`: places and the order.
* `place_expiryAfter_le`: no expiry is later than the lifetime says.
* `min_add_le_expiryAfter`: no expiry is earlier than it says, but for the latest expiry there is.
* `hasFourDigitYear_expiryAfter`: the year of an expiry has four digits, unless the lifetime begins
  before year `0`.
-/

namespace TopicCipher

namespace Instant

/-! ## The order -/

theorem le_refl (a : Instant) : a ≤ a := .inr ⟨rfl, Nat.le_refl _⟩

theorem le_trans {a b c : Instant} (hab : a ≤ b) (hbc : b ≤ c) : a ≤ c := by
  simp only [le_def] at *
  omega

theorem lt_of_le_of_lt {a b c : Instant} (hab : a ≤ b) (hbc : b < c) : a < c := by
  simp only [le_def, lt_def] at *
  omega

theorem le_of_lt {a b : Instant} (h : a < b) : a ≤ b := by
  simp only [le_def, lt_def] at *
  omega

theorem lt_of_lt_of_le {a b c : Instant} (hab : a < b) (hbc : b ≤ c) : a < c := by
  simp only [le_def, lt_def] at *
  omega

theorem not_le {a b : Instant} : ¬ a ≤ b ↔ b < a := by
  simp only [le_def, lt_def]
  omega

theorem le_antisymm {a b : Instant} (hab : a ≤ b) (hba : b ≤ a) : a = b := by
  obtain ⟨second, nano, _⟩ := a
  obtain ⟨second', nano', _⟩ := b
  simp only [le_def] at hab hba
  obtain rfl : second = second' := by omega
  obtain rfl : nano = nano' := by omega
  rfl

theorem min_le_left (a b : Instant) : a.min b ≤ a := by
  rw [min]
  split
  · exact le_refl a
  · simp only [le_def] at *
    omega

theorem min_le_right (a b : Instant) : a.min b ≤ b := by
  rw [min]
  split
  · assumption
  · exact le_refl b

theorem le_min {a b c : Instant} (hab : a ≤ b) (hac : a ≤ c) : a ≤ b.min c := by
  rw [min]
  split
  · exact hab
  · exact hac

theorem min_le_min_right {a b : Instant} (h : a ≤ b) (c : Instant) : a.min c ≤ b.min c :=
  le_min (le_trans (min_le_left a c) h) (min_le_right a c)

/-- What a timestamp says is no earlier than what it was written for. -/
theorem le_carry (t : Instant) : t ≤ t.carry := by
  rw [carry]
  split
  · refine .inl ?_
    show t.second < t.second + 1
    omega
  · exact le_refl t

theorem year_mono {a b : Instant} (h : a ≤ b) : a.year ≤ b.year := by
  have hyear := le_year_iff.mp (Int.le_refl a.year)
  rw [le_def] at h
  exact le_year_iff.mpr (by omega)

/-! ## Places on a timeline without leap seconds -/

/-- The nanoseconds from the start of 1970 to an instant; a leap second counts as over. -/
def place (t : Instant) : Int := t.second * nanosPerSecond + Min.min t.nano nanosPerSecond

/-- So many nanoseconds later; a leap second counts as over. -/
def later (t : Instant) (nanos : Nat) : Instant := ofUnixNanos (t.place + nanos)

theorem place_mono {a b : Instant} (h : a ≤ b) : a.place ≤ b.place := by
  rw [le_def] at h
  simp only [place, nanosPerSecond]
  omega

theorem unixNanos_le_place (t : Instant) : t.unixNanos ≤ t.place := by
  simp only [unixNanos, place, nanosPerSecond]
  omega

/-- Coming before an instant that is no leap second is a matter of places. -/
theorem le_ofUnixNanos_iff {t : Instant} {n : Int} : t ≤ ofUnixNanos n ↔ t.place ≤ n := by
  simp only [le_def, ofUnixNanos, place, nanosPerSecond]
  omega

theorem place_ofUnixNanos (n : Int) : (ofUnixNanos n).place = n := by
  simp only [ofUnixNanos, place, nanosPerSecond]
  omega

/-- Outside leap seconds, `later` is the sum. -/
theorem add_eq_later {t : Instant} (h : t.isLeap = false) (d : Span) :
    t.add d = t.later d.nanos := by
  have hnano : t.nano < nanosPerSecond := by simpa [isLeap] using h
  have hplace : t.unixNanos = t.place := by
    simp only [unixNanos, place, nanosPerSecond] at *
    omega
  rw [add, dif_neg (by simp [h]), later, hplace]

/-- No sum goes farther than the span. -/
theorem place_add_le (t : Instant) (d : Span) : (t.add d).place ≤ t.place + d.nanos := by
  rw [add]
  split
  next hleap =>
    have hover : nanosPerSecond ≤ t.nano := by simpa [isLeap] using hleap.1
    simp only [place, nanosPerSecond] at *
    omega
  next =>
    rw [place_ofUnixNanos]
    have := t.unixNanos_le_place
    omega

/-- Adding a span does not go back to an earlier second. -/
theorem second_le_second_add (t : Instant) (d : Span) : t.second ≤ (t.add d).second := by
  rw [add]
  split
  · exact Int.le_refl _
  · simp only [ofUnixNanos, unixNanos, nanosPerSecond]
    omega

/-- A longer span leads no less far, also out of a leap second. -/
theorem add_le_add (t : Instant) {d e : Span} (h : d.nanos ≤ e.nanos) : t.add d ≤ t.add e := by
  have hnano : t.nano < 2 * 1000000000 := t.nano_lt
  simp only [add, isLeap, decide_eq_true_eq, nanosPerSecond, le_def]
  split
  next hd =>
    split
    · exact .inr ⟨rfl, Nat.add_le_add_left h _⟩
    next he =>
      refine .inl ?_
      simp only [ofUnixNanos, unixNanos, nanosPerSecond]
      omega
  next hd =>
    rw [dif_neg (by omega)]
    simp only [ofUnixNanos, unixNanos, nanosPerSecond]
    omega

theorem le_add (t : Instant) (d : Span) : t ≤ t.add d := by
  have hnano : t.nano < 2 * 1000000000 := t.nano_lt
  simp only [add, isLeap, decide_eq_true_eq, nanosPerSecond, le_def]
  split
  · exact .inr ⟨rfl, Nat.le_add_right _ _⟩
  next hd =>
    simp only [ofUnixNanos, unixNanos, nanosPerSecond]
    omega

/-- Some time later is later, also inside a leap second and out of it. -/
theorem lt_add (t : Instant) {d : Span} (h : 0 < d.nanos) : t < t.add d := by
  have hnano : t.nano < 2 * 1000000000 := t.nano_lt
  simp only [add, isLeap, decide_eq_true_eq, nanosPerSecond, lt_def]
  split
  · exact .inr ⟨rfl, Nat.lt_add_of_pos_right h⟩
  next hd =>
    simp only [ofUnixNanos, unixNanos, nanosPerSecond]
    omega

/-- A step forward leads to the sum, if the span is short enough and the calendar long enough. -/
theorem after?_eq_some_iff {t u : Instant} {d : Span} :
    t.after? d = some u ↔ d.isStep = true ∧ (t.add d).second ≤ last.second ∧ t.add d = u := by
  rw [after?]
  by_cases hstep : d.isStep = true
  · by_cases hlast : (t.add d).second ≤ last.second <;> simp [hstep, hlast]
  · simp [hstep]

theorem after?_eq_none_iff {t : Instant} {d : Span} :
    t.after? d = none ↔ d.isStep = false ∨ last.second < (t.add d).second := by
  rw [← Int.not_le, after?]
  by_cases hstep : d.isStep = true
  · by_cases hlast : (t.add d).second ≤ last.second <;> simp [hstep, hlast]
  · simp [hstep]

/-- The first second of the calendar, at the start of the year -262143. -/
def firstSecond : Int := -8334601228800

/-- Clocks tell instants of the calendar, and leap seconds only at the end of a minute. -/
structure IsTold (t : Instant) : Prop where
  proper : t.IsProper
  first_le : firstSecond ≤ t.second
  le_last : t.second ≤ last.second

/-- The seconds of the calendar are told. -/
theorem isTold_ofSecond {second : Int} (hfirst : firstSecond ≤ second)
    (hlast : second ≤ last.second) : (ofSecond second).IsTold where
  proper hleap := absurd hleap (show ¬ decide (nanosPerSecond ≤ 0) = true by decide)
  first_le := hfirst
  le_last := hlast

end Instant

open Instant

theorem Span.nanos_add_le (d e : Span) : (d.add e).nanos ≤ d.nanos + e.nanos := by
  rw [add, nanos_ofNanos]
  exact Nat.min_le_left _ _

/-- A lifetime that leads beyond the calendar leads beyond the latest expiry. -/
theorem place_latestExpiry_le {now : Instant} (hnow : now.IsTold) {d : Span}
    (h : now.after? d = none) : latestExpiry.place ≤ now.place + d.nanos := by
  have hlatest : latestExpiry.place = 253402300799000000000 := by decide
  rcases after?_eq_none_iff.mp h with hstep | hlast
  · have hfirst : -8334601228800 ≤ now.second := hnow.first_le
    have hlong : 9223372036854775807000000 < d.nanos := by
      rw [Span.isStep, decide_eq_false_iff_not, Nat.not_le] at hstep
      exact hstep
    have hplace : now.second * 1000000000 ≤ now.place := by
      simp only [place, nanosPerSecond]
      omega
    omega
  · have hsum := now.place_add_le d
    have hlast : 8210266876799 < (now.add d).second := hlast
    have hbegin : (now.add d).second * 1000000000 ≤ (now.add d).place := by
      simp only [place, nanosPerSecond]
      omega
    omega

/-- **No expiry is later than the lifetime says.** -/
theorem place_expiryAfter_le {now : Instant} (hnow : now.IsTold) (ttl extra : Span) :
    (expiryAfter now ttl extra).place ≤ now.place + (ttl.nanos + extra.nanos : Nat) := by
  have hlifetime := Span.nanos_add_le ttl extra
  rw [expiryAfter]
  split
  next t hafter =>
    obtain ⟨-, -, rfl⟩ := after?_eq_some_iff.mp hafter
    have hsum := now.place_add_le (ttl.add extra)
    have hmin := place_mono ((now.add (ttl.add extra)).min_le_left latestExpiry)
    omega
  next hafter =>
    have hlatest := place_latestExpiry_le hnow hafter
    omega

theorem expiryAfter_le_latest (now : Instant) (ttl extra : Span) :
    expiryAfter now ttl extra ≤ latestExpiry := by
  rw [expiryAfter]
  split
  · exact min_le_right _ _
  · exact le_refl _

theorem Span.le_nanos_add (d e : Span) : d.nanos ≤ (d.add e).nanos := by
  have hlongest := d.nanos_lt
  rw [add, nanos_ofNanos]
  exact Nat.le_min.mpr ⟨Nat.le_add_right _ _, Nat.le_sub_one_of_lt hlongest⟩

/-- **No expiry is earlier than the lifetime says**, unless the latest expiry comes first. -/
theorem min_add_le_expiryAfter (now : Instant) (ttl extra : Span) :
    (now.add ttl).min latestExpiry ≤ expiryAfter now ttl extra := by
  rw [expiryAfter]
  split
  next t hafter =>
    obtain ⟨-, -, rfl⟩ := after?_eq_some_iff.mp hafter
    exact min_le_min_right (add_le_add now (ttl.le_nanos_add extra)) latestExpiry
  next => exact min_le_right _ _

/-- An expiry is no later than the sum with the longest lifetime there could be. -/
theorem expiryAfter_le_add {now : Instant} (hnow : now.IsTold) (ttl : Span) {extra bound : Span}
    (h : extra.nanos ≤ bound.nanos) : expiryAfter now ttl extra ≤ now.add (ttl.add bound) := by
  have hlifetime : (ttl.add extra).nanos ≤ (ttl.add bound).nanos := by
    rw [Span.add, Span.add, Span.nanos_ofNanos, Span.nanos_ofNanos]
    exact Nat.le_min.mpr ⟨Nat.le_trans (Nat.min_le_left _ _) (Nat.add_le_add_left h _),
      Nat.min_le_right _ _⟩
  refine le_trans ?_ (add_le_add now hlifetime)
  rw [expiryAfter]
  split
  next t hafter =>
    obtain ⟨-, -, rfl⟩ := after?_eq_some_iff.mp hafter
    exact min_le_left _ _
  next hafter =>
    refine .inl ?_
    show 253402300799 < (now.add (ttl.add extra)).second
    rcases after?_eq_none_iff.mp hafter with hstep | hlast
    · have hfirst : -8334601228800 ≤ now.second := hnow.first_le
      have hlong : 9223372036854775807000000 < (ttl.add extra).nanos := by
        rw [Span.isStep, decide_eq_false_iff_not, Nat.not_le] at hstep
        exact hstep
      rw [add, dif_neg (by simp only [nanosPerSecond]; omega)]
      simp only [ofUnixNanos, unixNanos, nanosPerSecond]
      omega
    · have hend : 8210266876799 < (now.add (ttl.add extra)).second := hlast
      omega

/-- An expiry is no earlier than what has come when its lifetime begins. -/
theorem le_expiryAfter {now t : Instant} (hnow : t ≤ now) (hlatest : t ≤ latestExpiry)
    (ttl extra : Span) : t ≤ expiryAfter now ttl extra :=
  le_trans (le_min (le_trans hnow (le_add now ttl)) hlatest) (min_add_le_expiryAfter now ttl extra)

/-- An expiry lies between the second of its beginning and the last second of the year `9999`. -/
theorem hasFourDigitYear_expiryAfter {now : Instant} (hnow : 0 ≤ now.year) (ttl extra : Span) :
    (expiryAfter now ttl extra).HasFourDigitYear := by
  have hzero : (Calendar.yearStart 0 - Calendar.unixEpoch) * 86400 = -62167219200 := by decide
  rw [le_year_iff, hzero] at hnow
  rw [hasFourDigitYear_iff]
  have hlatest : latestExpiry.second = 253402300799 := rfl
  rw [expiryAfter]
  split
  next t hafter =>
    obtain ⟨-, -, rfl⟩ := after?_eq_some_iff.mp hafter
    have hbegin := now.second_le_second_add (ttl.add extra)
    have hend := (now.add (ttl.add extra)).min_le_right latestExpiry
    rw [le_def] at hend
    refine ⟨?_, by omega⟩
    rw [Instant.min]
    split <;> omega
  next => omega

theorem isProper_add {t : Instant} (h : t.IsProper) (d : Span) : (t.add d).IsProper := by
  rw [add]
  split
  next hleap => exact fun _ => h hleap.1
  next =>
    intro hleap
    have hnano : (ofUnixNanos (t.unixNanos + d.nanos)).nano < nanosPerSecond := by
      simp only [ofUnixNanos, nanosPerSecond]
      omega
    simp only [isLeap, decide_eq_true_eq] at hleap
    exact absurd hnano (Nat.not_lt.mpr hleap)

/-- An expiry does not reach into a leap second where there is none. -/
theorem isProper_expiryAfter {now : Instant} (h : now.IsProper) (ttl extra : Span) :
    (expiryAfter now ttl extra).IsProper := by
  have hlatest : latestExpiry.IsProper := fun hleap => absurd hleap (by decide)
  rw [expiryAfter]
  split
  next t hafter =>
    obtain ⟨-, -, rfl⟩ := after?_eq_some_iff.mp hafter
    rw [Instant.min]
    split
    · exact isProper_add h _
    · exact hlatest
  next => exact hlatest

end TopicCipher
