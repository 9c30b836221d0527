import TopicCipher.Proofs.Answers
import TopicCipher.Proofs.Dialogue
import TopicCipher.Proofs.Time.Instant
import TopicCipher.Timing

/-!
# How long a key lives

An expiry is the sum of an instant, a lifetime and a random extra, unless the latest expiry comes
first.  On the way to it three things can go wrong: the lifetime with its extra is longer than any
span, it is too long for a clock to step by, or the sum leaves the calendar.  None of them shows.  A
span that a clock cannot step by leads beyond the year 9999 from every instant of the calendar, and
so does every sum that leaves it; the longest span is no such step, so a sum of spans that stops
there is not counted at all.

The extra is drawn as a number of milliseconds up to a bound.  These are counted in 64 bits, and the
draw is divided by one more than their count.  Where the count is the greatest number of 64 bits,
there is no such divisor.

* `expiryAfter_eq_endOfLife`: an expiry is the sum over unbounded numbers, or the latest expiry.
* `expiry_counts_exactly`: what that means for a clock with any source of random extra time.
* `ofDraw?_eq_none_iff`, `draws_whole_millis`: which bounds an extra can be drawn for, and how long
  it is.
-/

namespace TopicCipher

open Instant

/-! ## Sums over unbounded numbers -/

namespace Instant

theorem unixNanos_ofUnixNanos (n : Int) : (ofUnixNanos n).unixNanos = n := by
  simp only [ofUnixNanos, unixNanos, nanosPerSecond]
  omega

/-- Outside leap seconds, the place is the number of nanoseconds. -/
theorem place_eq_unixNanos {t : Instant} (h : t.isLeap = false) : t.place = t.unixNanos := by
  have hnano : t.nano < nanosPerSecond := by simpa [isLeap] using h
  simp only [place, unixNanos, nanosPerSecond] at *
  omega

theorem ofUnixNanos_le_iff {a b : Int} : ofUnixNanos a ≤ ofUnixNanos b ↔ a ≤ b := by
  rw [le_ofUnixNanos_iff, place_ofUnixNanos]

theorem min_ofUnixNanos (a b : Int) :
    (ofUnixNanos a).min (ofUnixNanos b) = ofUnixNanos (Min.min a b) := by
  rw [Instant.min]
  split
  next h => rw [Int.min_eq_left (ofUnixNanos_le_iff.mp h)]
  next h => rw [Int.min_eq_right (by rw [ofUnixNanos_le_iff] at h; omega)]

end Instant

/-- The sum of two spans that a clock can step by is not cut off. -/
theorem Span.nanos_add_of_isStep {d e : Span} (h : (d.add e).isStep = true) :
    (d.add e).nanos = d.nanos + e.nanos := by
  have hstep : (d.add e).nanos ≤ 9223372036854775807000000 := of_decide_eq_true h
  have hcut : (d.add e).nanos =
      Min.min (d.nanos + e.nanos) (18446744073709551616 * 1000000000 - 1) :=
    Span.nanos_ofNanos _
  omega

/-- The end of a lifetime of so many nanoseconds, counted without bounds: the sum, or the latest
expiry if that comes first. -/
def endOfLife (now : Instant) (nanos : Nat) : Instant :=
  .ofUnixNanos (Min.min latestExpiry.unixNanos (now.unixNanos + nanos))

/-- The end of a lifetime respects the order of its beginnings and of its lengths. -/
theorem endOfLife_mono {now later : Instant} (hnow : now.isLeap = false)
    (hlater : later.isLeap = false) (hle : now ≤ later) {nanos more : Nat} (hmore : nanos ≤ more) :
    endOfLife now nanos ≤ endOfLife later more := by
  have hplace := place_mono hle
  rw [place_eq_unixNanos hnow, place_eq_unixNanos hlater] at hplace
  rw [endOfLife, endOfLife, ofUnixNanos_le_iff]
  omega

/-- **An expiry is counted exactly.**  Neither a cut-off sum nor a span that is too long for a step
nor the end of the calendar gives an earlier or a later one. -/
theorem expiryAfter_eq_endOfLife {now : Instant} (hnow : now.IsTold) (hleap : now.isLeap = false)
    (ttl extra : Span) : expiryAfter now ttl extra = endOfLife now (ttl.nanos + extra.nanos) := by
  have hlatest : latestExpiry = ofUnixNanos latestExpiry.unixNanos := by decide
  rw [expiryAfter, endOfLife]
  cases hafter : now.after? (ttl.add extra) with
  | some t =>
    obtain ⟨hstep, -, rfl⟩ := after?_eq_some_iff.mp hafter
    show (now.add (ttl.add extra)).min latestExpiry = _
    rw [add_eq_later hleap, later, place_eq_unixNanos hleap,
      Span.nanos_add_of_isStep hstep, hlatest, min_ofUnixNanos, unixNanos_ofUnixNanos, Int.min_comm]
  | none =>
    -- cutting the sum off only shortens it, so the sum itself is not before the latest expiry
    -- either
    have hbeyond := place_latestExpiry_le hnow hafter
    have hsum := Span.nanos_add_le ttl extra
    rw [place_eq_unixNanos hleap,
      place_eq_unixNanos (by decide : latestExpiry.isLeap = false)] at hbeyond
    show latestExpiry = _
    rw [Int.min_eq_left (by omega), ← hlatest]

/-! ## Any source of random extra time -/

/-- **Expiries are counted exactly, whatever random extra is drawn within its bound.**  Each is the
sum over unbounded numbers or the latest expiry.  So it lies between the expiries without an extra
and with the greatest one, not beyond the year 9999, and it respects the order of instants,
lifetimes and extras. -/
theorem expiry_counts_exactly {m : Type → Type} [Monad m] {P : Type} [Watched m P]
    {timing : Timing m}
    {now : Instant} (hnow : now.IsTold) (hleap : now.isLeap = false) (ttl bound : Span)
    (hjitter : ∀ {s t : P} {extra : Span}, Gives (timing.jitter bound) s extra t →
      extra.nanos ≤ bound.nanos) :
    (∀ {s t : P} {expiry : Instant}, Gives (timing.expiry now ttl bound) s expiry t ↔
      ∃ extra, Gives (timing.jitter bound) s extra t ∧
        expiry = endOfLife now (ttl.nanos + extra.nanos)) ∧
    (∀ {s t : P} {expiry : Instant}, Gives (timing.expiry now ttl bound) s expiry t →
      endOfLife now ttl.nanos ≤ expiry ∧ expiry ≤ endOfLife now (ttl.nanos + bound.nanos) ∧
        expiry ≤ latestExpiry ∧ expiry.year ≤ 9999) ∧
    ∀ {later : Instant} {longer extra more : Span}, later.IsTold → later.isLeap = false →
      now ≤ later → ttl.nanos ≤ longer.nanos → extra.nanos ≤ more.nanos →
        expiryAfter now ttl extra ≤ expiryAfter later longer more := by
  have hexact {s t : P} {expiry : Instant} : Gives (timing.expiry now ttl bound) s expiry t ↔
      ∃ extra, Gives (timing.jitter bound) s extra t ∧
        expiry = endOfLife now (ttl.nanos + extra.nanos) := by
    rw [Timing.gives_expiry]
    refine exists_congr fun extra => ?_
    rw [expiryAfter_eq_endOfLife hnow hleap, and_comm]
  refine ⟨hexact, ?_, ?_⟩
  · intro s t expiry h
    obtain ⟨extra, hdrawn, rfl⟩ := hexact.mp h
    have hnow_le := Instant.le_refl now
    have hbound : ttl.nanos + extra.nanos ≤ ttl.nanos + bound.nanos :=
      Nat.add_le_add_left (hjitter hdrawn) _
    have hlatest : endOfLife now (ttl.nanos + extra.nanos) ≤ latestExpiry := by
      rw [← expiryAfter_eq_endOfLife hnow hleap]
      exact expiryAfter_le_latest now ttl extra
    exact ⟨endOfLife_mono hleap hleap hnow_le (Nat.le_add_right _ _),
      endOfLife_mono hleap hleap hnow_le hbound, hlatest,
      Int.le_trans (year_mono hlatest) (by decide)⟩
  · intro later longer extra more hlater hleap' hle hlonger hmore
    rw [expiryAfter_eq_endOfLife hnow hleap, expiryAfter_eq_endOfLife hlater hleap']
    exact endOfLife_mono hleap hleap' hle (Nat.add_le_add hlonger hmore)

theorem Jitter.nanos_fixed_le (extra bound : Span) : (fixed extra bound).nanos ≤ bound.nanos := by
  rw [fixed, Span.nanos_min]
  exact Nat.min_le_right _ _

/-- A clock that stands at the start of the calendar, with an extra of a year. -/
def firstTiming : Timing (Dialogue Unit fun _ => Unit) where
  now := pure (.ofSecond firstSecond)
  jitter bound := pure (Jitter.fixed (.ofSeconds 31557600) bound)

/-- From the start of the calendar, the longest lifetime leads to the latest expiry, and ten minutes
lead to no later one. -/
theorem expiry_counts_exactly_longest :
    (ofSecond firstSecond).IsTold ∧ (ofSecond firstSecond).isLeap = false ∧
      Gives (firstTiming.expiry (.ofSecond firstSecond) .longest .longest) [] latestExpiry [] ∧
      expiryAfter (.ofSecond firstSecond) (.ofSeconds 600) .zero ≤
        expiryAfter (.ofSecond firstSecond) .longest .longest := by
  have htold : (ofSecond firstSecond).IsTold := isTold_ofSecond (by decide) (by decide)
  have hleap : (ofSecond firstSecond).isLeap = false := by decide
  have hjitter (bound : Span) {s t : List (Exchange Unit fun _ => Unit)} {extra : Span}
      (h : Gives (firstTiming.jitter bound) s extra t) : extra.nanos ≤ bound.nanos := by
    rw [(gives_pure.mp h).1]
    exact Jitter.nanos_fixed_le _ _
  obtain ⟨hexact, -, -⟩ := expiry_counts_exactly htold hleap .longest .longest (hjitter .longest)
  obtain ⟨-, -, hmono⟩ := expiry_counts_exactly htold hleap (.ofSeconds 600) .zero (hjitter .zero)
  exact ⟨htold, hleap, hexact.mpr ⟨_, gives_pure.mpr ⟨rfl, rfl⟩, by decide⟩,
    hmono htold hleap (Instant.le_refl _) (by decide) (by decide)⟩

/-! ## Random draws -/

namespace Jitter

/-- Counting on in 64 bits gives one more, unless it gives `0`. -/
theorem toNat_add_one_of_ne {n : UInt64} (h : n + 1 ≠ 0) : (n + 1).toNat = n.toNat + 1 := by
  have hlt := n.toNat_lt
  have hne : (n + 1).toNat ≠ 0 := fun hzero => h (UInt64.toNat_inj.mp hzero)
  rw [UInt64.toNat_add, UInt64.toNat_one] at *
  omega

/-- It gives `0` exactly if the count was the greatest number. -/
theorem count_add_one_eq_zero_iff (n : Nat) :
    UInt64.ofNat n + 1 = 0 ↔ UInt64.size ∣ n + 1 := by
  rw [← UInt64.toNat_inj, UInt64.toNat_add, UInt64.toNat_ofNat', UInt64.toNat_one,
    UInt64.toNat_zero, Nat.dvd_iff_mod_eq_zero]
  simp only [UInt64.size]
  omega

/-- The milliseconds of a bound are not longer than the bound. -/
theorem millis_mul_le (bound : Span) : bound.millis * nanosPerMilli ≤ bound.nanos :=
  Nat.div_mul_le_self _ _

/-- So many milliseconds are not cut off, if there is room for them in a bound. -/
theorem nanos_ofMillis {millis : Nat} {bound : Span} (h : millis ≤ bound.millis) :
    (Span.ofMillis millis).nanos = millis * nanosPerMilli := by
  have hfits : millis * nanosPerMilli < UInt64.size * nanosPerSecond :=
    Nat.lt_of_le_of_lt (Nat.le_trans (Nat.mul_le_mul_right _ h) (millis_mul_le bound))
      bound.nanos_lt
  rw [Span.ofMillis, Span.ofNanos, dif_pos hfits]

/-- **There is no extra exactly if** something was drawn and the milliseconds of the bound, counted
in 64 bits, are the greatest number. -/
theorem ofDraw?_eq_none_iff {draw : Option UInt64} {bound : Span} :
    ofDraw? draw bound = none ↔ draw.isSome = true ∧ UInt64.size ∣ bound.millis + 1 := by
  rw [← count_add_one_eq_zero_iff]
  unfold ofDraw?
  by_cases hzero : UInt64.ofNat bound.millis = 0
  · simp [hzero]
  · cases draw with
    | none => simp [hzero]
    | some bits => by_cases hcount : UInt64.ofNat bound.millis + 1 = 0 <;> simp [hzero, hcount]

/-- **An extra is a number of milliseconds up to that of the bound.** -/
theorem exists_millis_of_ofDraw? {draw : Option UInt64} {bound extra : Span}
    (h : ofDraw? draw bound = some extra) :
    ∃ millis ≤ bound.millis, extra.nanos = millis * nanosPerMilli := by
  unfold ofDraw? at h
  dsimp only at h
  split at h
  · exact ⟨0, Nat.zero_le _, by rw [← Option.some.inj h]; rfl⟩
  · cases draw with
    | none => exact ⟨0, Nat.zero_le _, by rw [← Option.some.inj h]; rfl⟩
    | some bits =>
      simp only at h
      split at h
      · exact absurd h (by simp)
      next hcount =>
        have hrest : (bits % (UInt64.ofNat bound.millis + 1)).toNat ≤ bound.millis := by
          rw [UInt64.toNat_mod, toNat_add_one_of_ne hcount, UInt64.toNat_ofNat']
          calc bits.toNat % (bound.millis % 2 ^ 64 + 1)
              ≤ bound.millis % 2 ^ 64 := Nat.le_of_lt_succ (Nat.mod_lt _ (Nat.succ_pos _))
            _ ≤ bound.millis := Nat.mod_le _ _
        exact ⟨_, hrest, by rw [← Option.some.inj h, nanos_ofMillis hrest]⟩

/-- A bound of whole seconds has a number of milliseconds that is even. -/
theorem not_dvd_millis_add_one {bound : Span} (h : bound.subsecond = 0) :
    ¬ UInt64.size ∣ bound.millis + 1 := by
  have hmillis : bound.millis = 1000 * bound.seconds := by
    simp only [Span.millis, Span.seconds, Span.subsecond, nanosPerMilli, nanosPerSecond] at *
    omega
  rw [hmillis]
  simp only [UInt64.size]
  omega

/-- **An extra is a whole number of milliseconds up to the bound**, whatever is drawn, for every
bound but those whose milliseconds, counted in 64 bits, are the greatest number.  For these there is
neither an extra nor an expiry as soon as something is drawn.  No bound of whole seconds is one of
them. -/
theorem draws_whole_millis (draw : Option UInt64) (bound : Span) :
    (¬ (draw.isSome = true ∧ UInt64.size ∣ bound.millis + 1) →
      ∃ extra, ofDraw? draw bound = some extra ∧ nanosPerMilli ∣ extra.nanos ∧
        extra.nanos ≤ bound.nanos) ∧
    (∀ now ttl, (ofDraw? draw bound).map (expiryAfter now ttl) = none ↔
      draw.isSome = true ∧ UInt64.size ∣ bound.millis + 1) ∧
    (bound.subsecond = 0 → ¬ UInt64.size ∣ bound.millis + 1) := by
  refine ⟨fun hcount => ?_, fun now ttl => ?_, not_dvd_millis_add_one⟩
  · rw [← ofDraw?_eq_none_iff] at hcount
    obtain ⟨extra, hdrawn⟩ := Option.ne_none_iff_exists'.mp hcount
    obtain ⟨millis, hmillis, hextra⟩ := exists_millis_of_ofDraw? hdrawn
    refine ⟨extra, hdrawn, ?_, ?_⟩ <;> rw [hextra]
    · exact Nat.dvd_mul_left _ _
    · exact Nat.le_trans (Nat.mul_le_mul_right _ hmillis) (millis_mul_le bound)
  · rw [Option.map_eq_none_iff, ofDraw?_eq_none_iff]

/-- There is an extra for the greatest number of whole seconds. -/
theorem draws_whole_millis_seconds :
    (Span.ofSeconds 18446744073709551615).subsecond = 0 ∧
      ∃ extra, ofDraw? (some 18446744073709551615) (.ofSeconds 18446744073709551615) = some extra ∧
        nanosPerMilli ∣ extra.nanos ∧ extra.nanos ≤ 18446744073709551615 * nanosPerSecond := by
  have hseconds : (Span.ofSeconds 18446744073709551615).subsecond = 0 := by decide
  obtain ⟨hdrawn, -, heven⟩ :=
    draws_whole_millis (some 18446744073709551615) (.ofSeconds 18446744073709551615)
  exact ⟨hseconds, hdrawn fun h => heven hseconds h.2⟩

/-- The shortest bound for which there is no extra. -/
def unlucky : Span := .ofMillis 18446744073709551615

/-- Not for every bound there is an extra. -/
theorem not_forall_draws_extra :
    ¬ ∀ draw bound, ∃ extra, ofDraw? draw bound = some extra ∧ nanosPerMilli ∣ extra.nanos ∧
      extra.nanos ≤ bound.nanos := by
  intro h
  obtain ⟨extra, hdrawn, -⟩ := h (some 0) unlucky
  have hnone : ofDraw? (some 0) unlucky = none := ofDraw?_eq_none_iff.mpr ⟨rfl, by decide⟩
  exact Option.some_ne_none extra (hdrawn.symm.trans hnone)

end Jitter

end TopicCipher
