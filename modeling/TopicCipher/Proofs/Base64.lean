import Mathlib.Tactic.SplitIfs
import TopicCipher.Base64

/-!
# Base64 reads back

What is written in a layout reads back in it.  The induction follows the groups of three bytes that
writing goes by; the four symbols of a group read back as these bytes because every symbol stands
for its own number, and a symbol is never the `=` that fills up the last group.

Nothing else can be read.  A number below sixty-four has one symbol only, the reader takes no bits
that the bytes of a group do not fill, and `=` only where the writer puts it.  So every byte string
has exactly one text in a layout.

* `decodeChars?_encodeChars`, `eq_encodeChars_of_decodeChars?`: the two directions.
* `notMem_encodeChars`: which characters are never written.
* `length_of_decodeChars?`: how many bytes a text can say.
-/

namespace TopicCipher.Base64

variable {a : Alphabet}

/-! ## Symbols -/

/-- A character that stands for nothing is no symbol. -/
theorem symbol_ne {c : Char} (hc : a.value? c = none) {n : Nat} (hn : n < 64) :
    a.symbol n ≠ c := by
  rintro rfl
  exact absurd ((a.value?_symbol n hn).symm.trans hc) (Option.some_ne_none n)

theorem symbol_ne_pad {n : Nat} (hn : n < 64) : a.symbol n ≠ '=' :=
  symbol_ne (by cases a <;> decide) hn

/-- A character that stands for a number is the symbol of this number. -/
theorem symbol_of_value? {c : Char} {n : Nat} (h : a.value? c = some n) :
    n < 64 ∧ c = a.symbol n := by
  have hself : Char.ofNat c.toNat = c := Char.ofNat_toNat c
  rw [Alphabet.value?] at h
  split_ifs at h with hupper hlower hdigit h62 h63 <;> obtain rfl := Option.some.inj h
  · have hlow : 65 ≤ c.toNat := hupper.1
    have hhigh : c.toNat ≤ 90 := hupper.2
    refine ⟨by omega, ?_⟩
    rw [Alphabet.symbol, if_pos (by omega), Nat.sub_add_cancel hlow, hself]
  · have hlow : 97 ≤ c.toNat := hlower.1
    have hhigh : c.toNat ≤ 122 := hlower.2
    refine ⟨by omega, ?_⟩
    rw [Alphabet.symbol, if_neg (by omega), if_pos (by omega), Nat.sub_add_cancel (by omega), hself]
  · have hlow : 48 ≤ c.toNat := hdigit.1
    have hhigh : c.toNat ≤ 57 := hdigit.2
    refine ⟨by omega, ?_⟩
    rw [Alphabet.symbol, if_neg (by omega), if_neg (by omega), if_pos (by omega),
      Nat.add_sub_cancel, hself]
  · exact ⟨by omega, h62⟩
  · exact ⟨by omega, h63⟩

/-! ## Groups -/

theorem readTwo_symbols (x : UInt8) :
    readTwo a (a.symbol (x.toNat / 4)) (a.symbol (x.toNat % 4 * 16)) = some [x] := by
  have hx := x.toNat_lt
  have hvalue : x.toNat / 4 * 4 + x.toNat % 4 * 16 / 16 = x.toNat := by omega
  have hleft : x.toNat % 4 * 16 % 16 = 0 := by omega
  rw [readTwo, a.value?_symbol _ (by omega), a.value?_symbol _ (by omega)]
  simp only [Option.bind_eq_bind, Option.bind_some, if_pos hleft, hvalue, UInt8.ofNat_toNat]

theorem readThree_symbols (x y : UInt8) :
    readThree a (a.symbol (x.toNat / 4)) (a.symbol (x.toNat % 4 * 16 + y.toNat / 16))
      (a.symbol (y.toNat % 16 * 4)) = some [x, y] := by
  have hx := x.toNat_lt
  have hy := y.toNat_lt
  have hfirst : x.toNat / 4 * 4 + (x.toNat % 4 * 16 + y.toNat / 16) / 16 = x.toNat := by omega
  have hsecond : (x.toNat % 4 * 16 + y.toNat / 16) % 16 * 16 + y.toNat % 16 * 4 / 4 = y.toNat := by
    omega
  have hleft : y.toNat % 16 * 4 % 4 = 0 := by omega
  rw [readThree, a.value?_symbol _ (by omega), a.value?_symbol _ (by omega),
    a.value?_symbol _ (by omega)]
  simp only [Option.bind_eq_bind, Option.bind_some, if_pos hleft, hfirst, hsecond,
    UInt8.ofNat_toNat]

theorem readFour_symbols (x y z : UInt8) :
    readFour a (a.symbol (x.toNat / 4)) (a.symbol (x.toNat % 4 * 16 + y.toNat / 16))
      (a.symbol (y.toNat % 16 * 4 + z.toNat / 64)) (a.symbol (z.toNat % 64)) =
      some [x, y, z] := by
  have hx := x.toNat_lt
  have hy := y.toNat_lt
  have hz := z.toNat_lt
  have hfirst : x.toNat / 4 * 4 + (x.toNat % 4 * 16 + y.toNat / 16) / 16 = x.toNat := by omega
  have hsecond : (x.toNat % 4 * 16 + y.toNat / 16) % 16 * 16 +
      (y.toNat % 16 * 4 + z.toNat / 64) / 4 = y.toNat := by omega
  have hthird : (y.toNat % 16 * 4 + z.toNat / 64) % 4 * 64 + z.toNat % 64 = z.toNat := by omega
  rw [readFour, a.value?_symbol _ (by omega), a.value?_symbol _ (by omega),
    a.value?_symbol _ (by omega), a.value?_symbol _ (by omega)]
  simp only [Option.bind_eq_bind, Option.bind_some, hfirst, hsecond, hthird, UInt8.ofNat_toNat]

theorem symbols_of_readTwo {c d : Char} {bytes : Bytes} (h : readTwo a c d = some bytes) :
    ∃ x : UInt8, bytes = [x] ∧ c = a.symbol (x.toNat / 4) ∧ d = a.symbol (x.toNat % 4 * 16) := by
  simp only [readTwo, Option.bind_eq_bind, Option.bind_eq_some_iff,
    Option.ite_none_right_eq_some, Option.some.injEq] at h
  obtain ⟨m, hm, n, hn, hleft, rfl⟩ := h
  obtain ⟨hm64, rfl⟩ := symbol_of_value? hm
  obtain ⟨hn64, rfl⟩ := symbol_of_value? hn
  have hx : (UInt8.ofNat (m * 4 + n / 16)).toNat = m * 4 + n / 16 :=
    UInt8.toNat_ofNat_of_lt' (by show _ < 256; omega)
  refine ⟨_, rfl, ?_, ?_⟩ <;> rw [hx] <;> congr 1 <;> omega

theorem symbols_of_readThree {c d e : Char} {bytes : Bytes}
    (h : readThree a c d e = some bytes) :
    ∃ x y : UInt8, bytes = [x, y] ∧ c = a.symbol (x.toNat / 4) ∧
      d = a.symbol (x.toNat % 4 * 16 + y.toNat / 16) ∧ e = a.symbol (y.toNat % 16 * 4) := by
  simp only [readThree, Option.bind_eq_bind, Option.bind_eq_some_iff,
    Option.ite_none_right_eq_some, Option.some.injEq] at h
  obtain ⟨m, hm, n, hn, o, ho, hleft, rfl⟩ := h
  obtain ⟨hm64, rfl⟩ := symbol_of_value? hm
  obtain ⟨hn64, rfl⟩ := symbol_of_value? hn
  obtain ⟨ho64, rfl⟩ := symbol_of_value? ho
  have hx : (UInt8.ofNat (m * 4 + n / 16)).toNat = m * 4 + n / 16 :=
    UInt8.toNat_ofNat_of_lt' (by show _ < 256; omega)
  have hy : (UInt8.ofNat (n % 16 * 16 + o / 4)).toNat = n % 16 * 16 + o / 4 :=
    UInt8.toNat_ofNat_of_lt' (by show _ < 256; omega)
  refine ⟨_, _, rfl, ?_, ?_, ?_⟩ <;> simp only [hx, hy] <;> congr 1 <;> omega

theorem symbols_of_readFour {c d e f : Char} {bytes : Bytes}
    (h : readFour a c d e f = some bytes) :
    ∃ x y z : UInt8, bytes = [x, y, z] ∧ c = a.symbol (x.toNat / 4) ∧
      d = a.symbol (x.toNat % 4 * 16 + y.toNat / 16) ∧
      e = a.symbol (y.toNat % 16 * 4 + z.toNat / 64) ∧ f = a.symbol (z.toNat % 64) := by
  simp only [readFour, Option.bind_eq_bind, Option.bind_eq_some_iff, Option.some.injEq] at h
  obtain ⟨m, hm, n, hn, o, ho, p, hp, rfl⟩ := h
  obtain ⟨hm64, rfl⟩ := symbol_of_value? hm
  obtain ⟨hn64, rfl⟩ := symbol_of_value? hn
  obtain ⟨ho64, rfl⟩ := symbol_of_value? ho
  obtain ⟨hp64, rfl⟩ := symbol_of_value? hp
  have hx : (UInt8.ofNat (m * 4 + n / 16)).toNat = m * 4 + n / 16 :=
    UInt8.toNat_ofNat_of_lt' (by show _ < 256; omega)
  have hy : (UInt8.ofNat (n % 16 * 16 + o / 4)).toNat = n % 16 * 16 + o / 4 :=
    UInt8.toNat_ofNat_of_lt' (by show _ < 256; omega)
  have hz : (UInt8.ofNat (o % 4 * 64 + p)).toNat = o % 4 * 64 + p :=
    UInt8.toNat_ofNat_of_lt' (by show _ < 256; omega)
  refine ⟨_, _, _, rfl, ?_, ?_, ?_, ?_⟩ <;> simp only [hx, hy, hz] <;> congr 1 <;> omega

/-! ## Texts -/

/-- **What is written in a layout reads back in it.** -/
theorem decodeChars?_encodeChars (b : Base64) (bytes : Bytes) :
    b.decodeChars? (b.encodeChars bytes) = some bytes := by
  induction bytes using encodeChars.induct with
  | case1 => rfl
  | case2 x =>
    have hx := x.toNat_lt
    rw [encodeChars]
    cases hpadded : b.padded
    · simp only [Bool.false_eq_true, if_false, decodeChars?, hpadded]
      exact readTwo_symbols x
    · simp only [if_true, decodeChars?, hpadded, true_and]
      exact readTwo_symbols x
  | case3 x y =>
    have hx := x.toNat_lt
    have hy := y.toNat_lt
    rw [encodeChars]
    cases hpadded : b.padded
    · simp only [Bool.false_eq_true, if_false, decodeChars?, hpadded]
      exact readThree_symbols x y
    · simp only [if_true, decodeChars?, hpadded, true_and,
        if_neg (symbol_ne_pad (a := b.alphabet) (n := y.toNat % 16 * 4) (by omega))]
      exact readThree_symbols x y
  | case4 x y z rest ih =>
    have hz := z.toNat_lt
    have hpad : ¬(b.padded = true ∧ b.encodeChars rest = [] ∧
        b.alphabet.symbol (z.toNat % 64) = '=') :=
      fun h => symbol_ne_pad (by omega) h.2.2
    rw [encodeChars, decodeChars?, if_neg hpad, readFour_symbols, ih]
    rfl

/-- A character that is neither a symbol nor `=` is never written. -/
theorem notMem_encodeChars {b : Base64} {c : Char} (hc : b.alphabet.value? c = none)
    (hpad : c ≠ '=') (bytes : Bytes) : c ∉ b.encodeChars bytes := by
  have hsymbol {n : Nat} (hn : n < 64) : c ≠ b.alphabet.symbol n := (symbol_ne hc hn).symm
  induction bytes using encodeChars.induct with
  | case1 => exact List.not_mem_nil
  | case2 x =>
    have hx := x.toNat_lt
    rw [encodeChars]
    cases b.padded <;> simp [hpad, hsymbol (show x.toNat / 4 < 64 by omega),
      hsymbol (show x.toNat % 4 * 16 < 64 by omega)]
  | case3 x y =>
    have hx := x.toNat_lt
    have hy := y.toNat_lt
    rw [encodeChars]
    cases b.padded <;> simp [hpad, hsymbol (show x.toNat / 4 < 64 by omega),
      hsymbol (show x.toNat % 4 * 16 + y.toNat / 16 < 64 by omega),
      hsymbol (show y.toNat % 16 * 4 < 64 by omega)]
  | case4 x y z rest ih =>
    have hx := x.toNat_lt
    have hy := y.toNat_lt
    have hz := z.toNat_lt
    rw [encodeChars]
    simp [ih, hsymbol (show x.toNat / 4 < 64 by omega),
      hsymbol (show x.toNat % 4 * 16 + y.toNat / 16 < 64 by omega),
      hsymbol (show y.toNat % 16 * 4 + z.toNat / 64 < 64 by omega),
      hsymbol (show z.toNat % 64 < 64 by omega)]

/-- **Only what is written in a layout reads in it.** -/
theorem eq_encodeChars_of_decodeChars? {b : Base64} {cs : List Char} {bytes : Bytes}
    (h : b.decodeChars? cs = some bytes) : cs = b.encodeChars bytes := by
  induction cs using decodeChars?.induct b generalizing bytes with
  | case1 =>
    obtain rfl := Option.some.inj h
    rfl
  | case2 => exact absurd h.symm (Option.some_ne_none bytes)
  | case3 c d hpadded => simp [decodeChars?, hpadded] at h
  | case4 c d hpadded =>
    rw [decodeChars?, if_neg hpadded] at h
    obtain ⟨x, rfl, rfl, rfl⟩ := symbols_of_readTwo h
    rw [encodeChars, if_neg hpadded]
  | case5 c d e hpadded => simp [decodeChars?, hpadded] at h
  | case6 c d e hpadded =>
    rw [decodeChars?, if_neg hpadded] at h
    obtain ⟨x, y, rfl, rfl, rfl, rfl⟩ := symbols_of_readThree h
    rw [encodeChars, if_neg hpadded]
  | case7 c d f rest hlast =>
    rw [decodeChars?, if_pos hlast, if_pos rfl] at h
    obtain ⟨hpadded, rfl, rfl⟩ := hlast
    obtain ⟨x, rfl, rfl, rfl⟩ := symbols_of_readTwo h
    rw [encodeChars, if_pos hpadded]
  | case8 c d e f rest hlast he =>
    rw [decodeChars?, if_pos hlast, if_neg he] at h
    obtain ⟨hpadded, rfl, rfl⟩ := hlast
    obtain ⟨x, y, rfl, rfl, rfl, rfl⟩ := symbols_of_readThree h
    rw [encodeChars, if_pos hpadded]
  | case9 c d e f rest hlast ih =>
    rw [decodeChars?, if_neg hlast] at h
    simp only [Option.bind_eq_bind, Option.bind_eq_some_iff, Option.some.injEq] at h
    obtain ⟨group, hgroup, tail, htail, rfl⟩ := h
    obtain ⟨x, y, z, rfl, rfl, rfl, rfl, rfl⟩ := symbols_of_readFour hgroup
    rw [ih htail]
    rfl

theorem decodeChars?_eq_some_iff {b : Base64} {cs : List Char} {bytes : Bytes} :
    b.decodeChars? cs = some bytes ↔ cs = b.encodeChars bytes := by
  constructor
  · exact eq_encodeChars_of_decodeChars?
  · rintro rfl
    exact b.decodeChars?_encodeChars bytes

/-! ## Lengths -/

/-- Three bytes take four symbols. -/
theorem length_le_length_encodeChars (b : Base64) (bytes : Bytes) :
    4 * bytes.length ≤ 3 * (b.encodeChars bytes).length := by
  induction bytes using encodeChars.induct with
  | case1 => exact Nat.le_refl 0
  | case2 x =>
    rw [encodeChars]
    simp only [List.length_cons, List.length_nil]
    omega
  | case3 x y =>
    rw [encodeChars]
    simp only [List.length_cons, List.length_nil]
    omega
  | case4 x y z rest ih =>
    rw [encodeChars]
    simp only [List.length_cons]
    omega

theorem length_of_decodeChars? {b : Base64} {cs : List Char} {bytes : Bytes}
    (h : b.decodeChars? cs = some bytes) : 4 * bytes.length ≤ 3 * cs.length := by
  rw [eq_encodeChars_of_decodeChars? h]
  exact b.length_le_length_encodeChars bytes

end TopicCipher.Base64
