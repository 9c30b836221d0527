import TopicCipher.Proofs.Base64
import TopicCipher.Proofs.Blank
import TopicCipher.TopicKey

/-!
# Key material is what was encoded

Key material is tried in four layouts, one after the other, and the first one that reads it wins.
If two layouts read one text differently, the winner would be a matter of the order, and a topic
would be encrypted under a wrong key without anyone noticing.

This cannot happen.  The two alphabets differ in their last two symbols, but no character is a
symbol of both with different values: what one writes with them, the other cannot read at all.  And
whether a text is padded is told by its end, since `=` is a symbol of neither.  So the layouts that
read a text read the same bytes, and to be read is to be the encoding of these bytes in some layout.

* `eq_of_decodeChars?`: two layouts that read a text agree.
* `findSome?_decode?_eq_some_iff`: what a chain of attempts reads, whatever the order.
* `keyMaterial_reads_what_was_encoded`: key material in all.
-/

namespace TopicCipher

namespace Base64

variable {a a' : Alphabet}

/-! ## Two alphabets -/

/-- A character does not stand for different numbers in the two alphabets. -/
theorem eq_of_value? {c : Char} {m n : Nat} (h : a.value? c = some m) (h' : a'.value? c = some n) :
    m = n := by
  have h62 : a.symbol62 ≠ a'.symbol63 := by cases a <;> cases a' <;> decide
  have h63 : a.symbol63 ≠ a'.symbol62 := by cases a <;> cases a' <;> decide
  rw [Alphabet.value?] at h h'
  split_ifs at h h' <;> simp_all

/-- Two alphabets that read a group of two symbols agree. -/
theorem eq_of_readTwo {c d : Char} {bytes bytes' : Bytes} (h : readTwo a c d = some bytes)
    (h' : readTwo a' c d = some bytes') : bytes = bytes' := by
  simp only [readTwo, Option.bind_eq_bind, Option.bind_eq_some_iff,
    Option.ite_none_right_eq_some, Option.some.injEq] at h h'
  obtain ⟨m, hm, n, hn, -, rfl⟩ := h
  obtain ⟨m', hm', n', hn', -, rfl⟩ := h'
  rw [eq_of_value? hm hm', eq_of_value? hn hn']

/-- Two alphabets that read a group of three symbols agree. -/
theorem eq_of_readThree {c d e : Char} {bytes bytes' : Bytes} (h : readThree a c d e = some bytes)
    (h' : readThree a' c d e = some bytes') : bytes = bytes' := by
  simp only [readThree, Option.bind_eq_bind, Option.bind_eq_some_iff,
    Option.ite_none_right_eq_some, Option.some.injEq] at h h'
  obtain ⟨m, hm, n, hn, o, ho, -, rfl⟩ := h
  obtain ⟨m', hm', n', hn', o', ho', -, rfl⟩ := h'
  rw [eq_of_value? hm hm', eq_of_value? hn hn', eq_of_value? ho ho']

/-- Two alphabets that read a full group agree. -/
theorem eq_of_readFour {c d e f : Char} {bytes bytes' : Bytes}
    (h : readFour a c d e f = some bytes) (h' : readFour a' c d e f = some bytes') :
    bytes = bytes' := by
  simp only [readFour, Option.bind_eq_bind, Option.bind_eq_some_iff, Option.some.injEq] at h h'
  obtain ⟨m, hm, n, hn, o, ho, p, hp, rfl⟩ := h
  obtain ⟨m', hm', n', hn', o', ho', p', hp', rfl⟩ := h'
  rw [eq_of_value? hm hm', eq_of_value? hn hn', eq_of_value? ho ho', eq_of_value? hp hp']

/-- What fills up a last group is no symbol of a full one. -/
theorem readFour_pad (c d e : Char) : readFour a c d e '=' = none := by
  have hpad : a.value? '=' = none := by cases a <;> decide
  simp [readFour, hpad]

/-! ## Two layouts -/

/-- **Two layouts that read a text read the same bytes.** -/
theorem eq_of_decodeChars? {b b' : Base64} {cs : List Char} {bytes bytes' : Bytes}
    (h : b.decodeChars? cs = some bytes) (h' : b'.decodeChars? cs = some bytes') :
    bytes = bytes' := by
  induction cs using decodeChars?.induct b generalizing bytes bytes' with
  | case1 => exact Option.some.inj (h.symm.trans h')
  | case2 => exact absurd h.symm (Option.some_ne_none bytes)
  | case3 c d hpadded => simp [decodeChars?, hpadded] at h
  | case4 c d hpadded =>
    rw [decodeChars?, if_neg hpadded] at h
    rw [decodeChars?, Option.ite_none_left_eq_some] at h'
    exact eq_of_readTwo h h'.2
  | case5 c d e hpadded => simp [decodeChars?, hpadded] at h
  | case6 c d e hpadded =>
    rw [decodeChars?, if_neg hpadded] at h
    rw [decodeChars?, Option.ite_none_left_eq_some] at h'
    exact eq_of_readThree h h'.2
  | case7 c d f rest hlast =>
    rw [decodeChars?, if_pos hlast, if_pos rfl] at h
    obtain ⟨-, rfl, rfl⟩ := hlast
    rw [decodeChars?, if_pos rfl] at h'
    split_ifs at h'
    · exact eq_of_readTwo h h'
    · simp [readFour_pad] at h'
  | case8 c d e f rest hlast he =>
    rw [decodeChars?, if_pos hlast, if_neg he] at h
    obtain ⟨-, rfl, rfl⟩ := hlast
    rw [decodeChars?, if_neg he] at h'
    split_ifs at h'
    · exact eq_of_readThree h h'
    · simp [readFour_pad] at h'
  | case9 c d e f rest hlast ih =>
    rw [decodeChars?, if_neg hlast] at h
    simp only [Option.bind_eq_bind, Option.bind_eq_some_iff, Option.some.injEq] at h
    obtain ⟨group, hgroup, tail, htail, rfl⟩ := h
    have hf : f ≠ '=' := by
      rintro rfl
      simp [readFour_pad] at hgroup
    rw [decodeChars?, if_neg fun hlast' => hf hlast'.2.2] at h'
    simp only [Option.bind_eq_bind, Option.bind_eq_some_iff, Option.some.injEq] at h'
    obtain ⟨group', hgroup', tail', htail', rfl⟩ := h'
    rw [eq_of_readFour hgroup hgroup', ih htail htail']

theorem decode?_eq_some_iff {b : Base64} {text : String} {bytes : Bytes} :
    b.decode? text = some bytes ↔ text = b.encode bytes := by
  rw [decode?, decodeChars?_eq_some_iff, encode, ← String.toList_inj, String.toList_ofList]

/-- **The order of attempts does not matter**: a chain of layouts reads what one of them wrote. -/
theorem findSome?_decode?_eq_some_iff {layouts : List Base64} {text : String} {bytes : Bytes} :
    layouts.findSome? (fun layout => layout.decode? text) = some bytes ↔
      ∃ layout ∈ layouts, text = layout.encode bytes := by
  constructor
  · intro h
    obtain ⟨layout, hmem, hdecode⟩ := List.exists_of_findSome?_eq_some h
    exact ⟨layout, hmem, decode?_eq_some_iff.mp hdecode⟩
  · rintro ⟨layout, hmem, htext⟩
    have hdecode := decode?_eq_some_iff.mpr htext
    have hsome : (layouts.findSome? fun layout => layout.decode? text).isSome = true :=
      List.findSome?_isSome_iff.mpr ⟨layout, hmem, by rw [hdecode]; rfl⟩
    obtain ⟨bytes', hbytes'⟩ := Option.isSome_iff_exists.mp hsome
    obtain ⟨layout', -, hdecode'⟩ := List.exists_of_findSome?_eq_some hbytes'
    rw [hbytes', eq_of_decodeChars? hdecode' hdecode]

/-! ## Strangers -/

/-- A text with a character that is neither a symbol nor `=` was not written. -/
theorem ne_encode_of_mem {b : Base64} {text : String} {c : Char} (hmem : c ∈ text.toList)
    (hc : b.alphabet.value? c = none) (hpad : c ≠ '=') (bytes : Bytes) : text ≠ b.encode bytes := by
  rintro rfl
  rw [encode, String.toList_ofList] at hmem
  exact notMem_encodeChars hc hpad bytes hmem

/-- The last two symbols of an alphabet. -/
def Alphabet.IsOwn (a : Alphabet) (c : Char) : Prop := c = a.symbol62 ∨ c = a.symbol63

/-- The last two symbols of an alphabet stand for nothing in the other one. -/
theorem Alphabet.IsOwn.value? {c : Char} (h : a.IsOwn c) (hother : a' ≠ a) :
    a'.value? c = none := by
  revert hother
  rcases h with rfl | rfl <;> cases a <;> cases a' <;> decide

/-- No symbol is blank. -/
theorem value?_of_isBlank {c : Char} (h : Text.isBlank c = true) : a.value? c = none := by
  have hsymbols : ∀ n < 64, Text.isBlank (a.symbol n) = false := by cases a <;> decide
  rcases hvalue : a.value? c with _ | n
  · rfl
  · obtain ⟨hn, rfl⟩ := symbol_of_value? hvalue
    exact absurd h (by rw [hsymbols n hn]; decide)

end Base64

/-! ## Key material -/

/-- Every layout is tried. -/
theorem mem_keyLayouts (layout : Base64) : layout ∈ keyLayouts := by
  obtain ⟨alphabet, padded⟩ := layout
  cases alphabet <;> cases padded <;> decide

/-- Key material is read exactly if it was written, in any layout. -/
theorem keyMaterial_eq_ok_iff {text : String} {bytes : Bytes} :
    keyMaterial text = .ok bytes ↔ ∃ layout : Base64, Text.trim text = layout.encode bytes := by
  have hchain : (keyLayouts.findSome? fun layout => layout.decode? (Text.trim text)) = some bytes ↔
      ∃ layout : Base64, Text.trim text = layout.encode bytes := by
    simp only [Base64.findSome?_decode?_eq_some_iff, mem_keyLayouts, true_and]
  rw [← hchain, keyMaterial]
  cases keyLayouts.findSome? fun layout => layout.decode? (Text.trim text) <;> simp

/-- Key material that was not written in any layout is refused as such. -/
theorem keyMaterial_eq_error {text : String}
    (h : ∀ (layout : Base64) (bytes : Bytes), Text.trim text ≠ layout.encode bytes) :
    keyMaterial text = .error (.keyEncoding Base64.rejection) := by
  have hnone : (keyLayouts.findSome? fun layout => layout.decode? (Text.trim text)) = none := by
    rw [Option.eq_none_iff_forall_ne_some]
    intro bytes hsome
    obtain ⟨layout, -, htext⟩ := Base64.findSome?_decode?_eq_some_iff.mp hsome
    exact h layout bytes htext
  rw [keyMaterial, hnone]

/-- **Key material is what was encoded.**  A text reads as some bytes exactly if it is, up to blanks
around it, their encoding in one of the four layouts.  No two layouts read a text differently, so
their order does not matter.  A text with symbols that only one alphabet has and symbols that only
the other one has is refused, and so is one with a blank inside. -/
theorem keyMaterial_reads_what_was_encoded (text : String) :
    (∀ bytes, keyMaterial text = .ok bytes ↔
      ∃ layout : Base64, Text.trim text = layout.encode bytes) ∧
    (∀ (layout layout' : Base64) (bytes bytes' : Bytes),
      layout.decode? (Text.trim text) = some bytes →
        layout'.decode? (Text.trim text) = some bytes' → bytes = bytes') ∧
    (∀ layouts : List Base64, layouts.Perm keyLayouts →
      (layouts.findSome? fun layout => layout.decode? (Text.trim text)) =
        keyLayouts.findSome? fun layout => layout.decode? (Text.trim text)) ∧
    ((∃ c ∈ text.toList, Base64.Alphabet.standard.IsOwn c) →
      (∃ c ∈ text.toList, Base64.Alphabet.urlSafe.IsOwn c) →
        keyMaterial text = .error (.keyEncoding Base64.rejection)) ∧
    ((∃ c ∈ (Text.trim text).toList, Text.isBlank c = true) →
      keyMaterial text = .error (.keyEncoding Base64.rejection)) := by
  refine ⟨fun _ => keyMaterial_eq_ok_iff, fun _ _ _ _ => Base64.eq_of_decodeChars?, ?_, ?_, ?_⟩
  · intro layouts hperm
    ext bytes
    simp only [Base64.findSome?_decode?_eq_some_iff, hperm.mem_iff]
  · rintro ⟨c, hc, hstandard⟩ ⟨d, hd, hurlSafe⟩
    have hkept {a : Base64.Alphabet} {c : Char} (hown : a.IsOwn c) :
        Text.isBlank c = false ∧ c ≠ '=' := by
      rcases hown with rfl | rfl <;> cases a <;> decide
    refine keyMaterial_eq_error fun layout bytes => ?_
    -- whichever alphabet the layout has, one of the two characters stands for nothing in it
    by_cases halphabet : layout.alphabet = .standard
    · exact Base64.ne_encode_of_mem (Text.mem_trim_of_mem hd (hkept hurlSafe).1)
        (hurlSafe.value? (by rw [halphabet]; decide)) (hkept hurlSafe).2 bytes
    · exact Base64.ne_encode_of_mem (Text.mem_trim_of_mem hc (hkept hstandard).1)
        (hstandard.value? halphabet) (hkept hstandard).2 bytes
  · rintro ⟨c, hc, hblank⟩
    have hpad : c ≠ '=' := by
      rintro rfl
      exact absurd hblank (by decide)
    exact keyMaterial_eq_error fun layout bytes =>
      Base64.ne_encode_of_mem hc (Base64.value?_of_isBlank hblank) hpad bytes

/-- Bytes whose symbols are the last two of an alphabet read back from either one, and from no
mixture of them. -/
theorem keyMaterial_of_last_symbols :
    keyMaterial " -__-_w\r\n" = .ok [0xFB, 0xFF, 0xFE, 0xFF] ∧
      keyMaterial "+//+/w==" = .ok [0xFB, 0xFF, 0xFE, 0xFF] ∧
      keyMaterial "-//-" = .error (.keyEncoding Base64.rejection) ∧
      keyMaterial "+//+ /w==" = .error (.keyEncoding Base64.rejection) := by
  refine ⟨?_, ?_, ?_, ?_⟩
  · exact ((keyMaterial_reads_what_was_encoded _).1 _).mpr ⟨⟨.urlSafe, false⟩, by decide⟩
  · exact ((keyMaterial_reads_what_was_encoded _).1 _).mpr ⟨⟨.standard, true⟩, by decide⟩
  · exact (keyMaterial_reads_what_was_encoded _).2.2.2.1 ⟨'/', by decide, .inr rfl⟩
      ⟨'-', by decide, .inl rfl⟩
  · exact (keyMaterial_reads_what_was_encoded _).2.2.2.2 ⟨' ', by decide, by decide⟩

end TopicCipher
