import TopicCipher.Proofs.KeyCache.Order

/-!
# Round trips through the text

What a text says of an entry stands in two lines, and no part of an entry can be taken for the end
of a line or of a part.  So the entries that can be said are read back, one by one and in their
order, whatever their texts look like (`parse_serialize_of_isDated`).  An empty key name is written
like none, and is the only thing that changes.

In the other direction more is read than is written.  A text may come from elsewhere, with other
spellings of versions and of expiries.  All that it says can be written in one spelling, with two
exceptions.  A carriage return inside a part does not end the line, so it is read; but it is never
written.  And an expiry with an offset from UTC may be read in a year with four digits and lie in
another one.

* `isLegible_iff`: the entries that a line can say, in terms of their parts.
* `parse_serialize_of_isDated`: writing and then reading.
* `isWritable_iff_of_mem_parse`: of what was read, carriage returns alone cannot be written.
* `arrange_arrange`: arranged entries stay as they are.
* `parse_serialize_parse`: reading, writing and reading again.
* `rewriting_keeps_what_was_read`: what is left of a text that was read and written again, and that
  the second time changes nothing.
-/

namespace TopicCipher.KeyCache

/-! ## Entries that can be said -/

/-- A text without tabs and line breaks. -/
def IsUnbroken (text : String) : Prop :=
  '\t' ∉ text.toList ∧ '\n' ∉ text.toList ∧ '\r' ∉ text.toList

/-- An entry that has a topic, a key and a positive version, and no part of which breaks a line. -/
structure IsLegible (e : CacheEntry) : Prop where
  topic_ne : e.topic ≠ ""
  topic_unbroken : IsUnbroken e.topic
  keyName_unbroken : ∀ name ∈ e.key.keyName, IsUnbroken name
  material_ne : e.key.material ≠ ""
  material_unbroken : IsUnbroken e.key.material
  version_ne : e.key.version ≠ 0

/-- An entry without a name for its key if the name is empty. -/
def named (e : CacheEntry) : CacheEntry :=
  { e with key := { e.key with keyName := e.key.keyName.filter (· ≠ "") } }

/-- The year of the expiry, if there is one, has four digits. -/
def IsDated (e : CacheEntry) : Prop := ∀ t ∈ e.expiresAt, t.HasFourDigitYear

theorem fitsLine_iff {text : String} : fitsLine text = true ↔ IsUnbroken text := by
  rw [fitsLine, Bool.not_eq_eq_eq_not, Bool.not_true, List.any_eq_false, IsUnbroken]
  constructor
  · intro h
    refine ⟨?_, ?_, ?_⟩ <;> exact fun hmem => h _ hmem (by decide)
  · rintro ⟨htab, hfeed, hreturn⟩ c hc hbreaks
    simp only [breaksLine, Bool.or_eq_true, beq_iff_eq] at hbreaks
    rcases hbreaks with (rfl | rfl) | rfl
    · exact htab hc
    · exact hfeed hc
    · exact hreturn hc

/-- Holds of the entries that can be written, in terms of their parts. -/
theorem isWritable_iff {e : CacheEntry} :
    isWritable e = true ↔
      e.topic ≠ "" ∧ IsUnbroken e.topic ∧ (∀ name ∈ e.key.keyName, IsUnbroken name) ∧
        e.key.material ≠ "" ∧ IsUnbroken e.key.material := by
  have hname : e.key.keyName.all fitsLine = true ↔ ∀ name ∈ e.key.keyName, IsUnbroken name := by
    rw [Option.all_eq_true]
    exact forall₂_congr fun name _ => fitsLine_iff
  simp only [isWritable, Bool.and_eq_true, Bool.not_eq_eq_eq_not, Bool.not_true,
    fitsLine_iff, hname, and_assoc, ne_eq, ← Bool.not_eq_true, String.isEmpty_iff]

theorem isLegible_iff {e : CacheEntry} :
    IsLegible e ↔ isWritable e = true ∧ e.key.version ≠ 0 := by
  rw [isWritable_iff]
  constructor
  · rintro ⟨htopic, htopic', hname, hmaterial, hmaterial', hversion⟩
    exact ⟨⟨htopic, htopic', hname, hmaterial, hmaterial'⟩, hversion⟩
  · rintro ⟨⟨htopic, htopic', hname, hmaterial, hmaterial'⟩, hversion⟩
    exact ⟨htopic, htopic', hname, hmaterial, hmaterial', hversion⟩

instance (e : CacheEntry) : Decidable (IsLegible e) := decidable_of_iff _ isLegible_iff.symm

instance (e : CacheEntry) : Decidable (IsDated e) :=
  inferInstanceAs (Decidable (∀ t ∈ e.expiresAt, t.HasFourDigitYear))

theorem isStorable_iff {e : CacheEntry} : IsStorable e ↔ IsLegible e ∧ IsDated e := by
  rw [isLegible_iff]
  constructor
  · rintro ⟨hwritable, hversion, hyear⟩
    exact ⟨⟨hwritable, hversion⟩, hyear⟩
  · rintro ⟨⟨hwritable, hversion⟩, hyear⟩
    exact ⟨hwritable, hversion, hyear⟩

/-! ## Writing and then reading -/

theorem asRead_eq_named {e : CacheEntry} (h : ∀ t ∈ e.expiresAt, t.IsProper) :
    asRead e = named e := by
  have hcarry : e.expiresAt.map Instant.carry = e.expiresAt := by
    rcases hexpiry : e.expiresAt with _ | t
    · rfl
    · exact congrArg some (Instant.carry_of_isProper (h t hexpiry))
  rw [asRead, hcarry]
  rfl

/-- What a text keeps of an entry with an expiry that can be read. -/
theorem stored?_of_isDated {e : CacheEntry} (hproper : ∀ t ∈ e.expiresAt, t.IsProper)
    (hdated : IsDated e) : stored? e = if IsLegible e then some (named e) else none := by
  split
  next hlegible =>
    exact stored?_eq_some_iff.mpr
      ⟨isStorable_iff.mpr ⟨hlegible, hdated⟩, (asRead_eq_named hproper).symm⟩
  next hlegible =>
    exact stored?_eq_none_iff.mpr fun hstorable => hlegible (isStorable_iff.mp hstorable).1

/-- What is written of two lists together is what is written of each of them. -/
theorem perm_parse_serialize_append (es others : List CacheEntry) :
    (parse (serialize (es ++ others))).Perm
      (parse (serialize es) ++ parse (serialize others)) := by
  refine (perm_parse_serialize (es ++ others)).trans ?_
  rw [List.filterMap_append]
  exact ((perm_parse_serialize es).append (perm_parse_serialize others)).symm

/-- **Reading back a written text gives the entries that can be said, in their order**, with all
that was written but for empty names.  No entry disturbs another. -/
theorem parse_serialize_of_isDated {es : List CacheEntry}
    (h : ∀ e ∈ es, ∀ t ∈ e.expiresAt, t.IsProper ∧ t.HasFourDigitYear) :
    (∃ sorted : List CacheEntry, sorted.Perm es ∧ Ordered sorted ∧
        parse (serialize es) = (sorted.filter (IsLegible ·)).map named) ∧
      ∀ others, (parse (serialize (es ++ others))).Perm
        (parse (serialize es) ++ parse (serialize others)) := by
  refine ⟨⟨es.mergeSort fun a b => (a.order b).isLE, List.mergeSort_perm es _,
    ordered_mergeSort es, ?_⟩, perm_parse_serialize_append es⟩
  rw [parse_serialize_eq_filterMap, ← List.filterMap_eq_map, List.filterMap_filter]
  refine List.filterMap_congr fun e he => ?_
  have hexpiry := h e (List.mem_mergeSort.mp he)
  rw [stored?_of_isDated (fun t ht => (hexpiry t ht).1) fun t ht => (hexpiry t ht).2]
  simp

/-- Entries with odd texts: a topic that is the word of a topic line, one that looks like a version
and a blank one; an empty name and one with a blank; a line separator and a blank as a key; an
expiry in a leap second; and two entries that cannot be said. -/
def oddEntries : List CacheEntry :=
  [⟨"topic", ⟨1, some "", "1"⟩, some ⟨1483228799, 1500000000, by decide⟩⟩,
    ⟨"1", ⟨4294967295, some "topic ", "\u2028 "⟩, none⟩,
    ⟨" ", ⟨2, none, "topic"⟩, some ⟨0, 1, by decide⟩⟩,
    ⟨"topic", ⟨1, none, "a\tb"⟩, none⟩,
    ⟨"topic", ⟨0, none, "k"⟩, none⟩]

/-- The odd entries that can be said read back. -/
theorem parse_serialize_oddEntries :
    (∀ e ∈ oddEntries, ∀ t ∈ e.expiresAt, t.IsProper ∧ t.HasFourDigitYear) ∧
      parse (serialize oddEntries) =
        [⟨" ", ⟨2, none, "topic"⟩, some ⟨0, 1, by decide⟩⟩,
          ⟨"1", ⟨4294967295, some "topic ", "\u2028 "⟩, none⟩,
          ⟨"topic", ⟨1, none, "1"⟩, some ⟨1483228799, 1500000000, by decide⟩⟩] := by
  have hexpiry : ∀ e ∈ oddEntries, ∀ t ∈ e.expiresAt, t.IsProper ∧ t.HasFourDigitYear := by
    decide
  refine ⟨hexpiry, ?_⟩
  obtain ⟨⟨sorted, hperm, hordered, hparse⟩, -⟩ := parse_serialize_of_isDated hexpiry
  have hsorted : sorted =
      [⟨" ", ⟨2, none, "topic"⟩, some ⟨0, 1, by decide⟩⟩,
        ⟨"1", ⟨4294967295, some "topic ", "\u2028 "⟩, none⟩,
        ⟨"topic", ⟨1, none, "a\tb"⟩, none⟩,
        ⟨"topic", ⟨1, some "", "1"⟩, some ⟨1483228799, 1500000000, by decide⟩⟩,
        ⟨"topic", ⟨0, none, "k"⟩, none⟩] := by
    refine eq_of_perm_of_ordered (hperm.trans ?_) hordered ?_
    · decide
    · unfold Ordered
      decide
  rw [hparse, hsorted]
  decide

/-! ## Reading and then writing -/

/-- No part of the entry has a carriage return in it. -/
def FreeOfReturns (e : CacheEntry) : Prop :=
  '\r' ∉ e.topic.toList ∧ (∀ name ∈ e.key.keyName, '\r' ∉ name.toList) ∧
    '\r' ∉ e.key.material.toList

instance (e : CacheEntry) : Decidable (FreeOfReturns e) :=
  inferInstanceAs (Decidable (_ ∧ (∀ name ∈ e.key.keyName, '\r' ∉ name.toList) ∧ _))

/-- Of a part of a line, only carriage returns can break a line. -/
theorem isUnbroken_iff_of_part {line part : List Char} {text : String} (hfeed : '\n' ∉ line)
    (hpart : part ∈ (Text.dropEndWhile (· = '\r') line).splitOn separator)
    (htext : nonempty? part = some text) : IsUnbroken text ↔ '\r' ∉ text.toList := by
  obtain ⟨-, rfl⟩ := nonempty?_eq_some_iff.mp htext
  have hchars := mem_and_ne_of_mem_parts hpart
  have htab : '\t' ∉ text.toList := fun h => (hchars _ h).2 rfl
  have hline : '\n' ∉ text.toList := fun h => hfeed (hchars _ h).1
  exact ⟨fun h => h.2.2, fun h => ⟨htab, hline, h⟩⟩

/-- **Of what was read, carriage returns alone cannot be written.** -/
theorem isWritable_iff_of_mem_parse {text : String} {e : CacheEntry} (h : e ∈ parse text) :
    isWritable e = true ↔ FreeOfReturns e := by
  obtain ⟨⟨line, hline, htopic⟩, own, hown, hentry⟩ := exists_lines_of_mem_parse h
  have hfeed := lineFeed_notMem_of_mem_lines hown
  obtain ⟨part, hpart, htells⟩ := exists_part_of_ofChars htopic
  obtain ⟨version, expiry, keyName, material, hparts, hsaid⟩ := exists_parts_of_ofChars hentry
  obtain ⟨key, expiresAt, heq, -, -, hname, hmaterial⟩ := exists_entry_of_entryOf? hsaid
  obtain ⟨rfl, -⟩ := Line.entry.inj heq
  have htopicIff := isUnbroken_iff_of_part (lineFeed_notMem_of_mem_lines hline) hpart htells
  have hmaterialIff := isUnbroken_iff_of_part hfeed (by simp [hparts]) hmaterial
  have hnameIff : ∀ name ∈ e.key.keyName, (IsUnbroken name ↔ '\r' ∉ name.toList) := by
    intro name hmem
    exact isUnbroken_iff_of_part hfeed (by simp [hparts]) (hname.symm.trans hmem)
  rw [isWritable_iff, FreeOfReturns, htopicIff, hmaterialIff, forall₂_congr hnameIff]
  constructor
  · rintro ⟨-, htopic, hname, -, hmaterial⟩
    exact ⟨htopic, hname, hmaterial⟩
  · rintro ⟨htopic, hname, hfree⟩
    exact ⟨(nonempty?_eq_some_iff.mp htells).1, htopic, hname,
      (nonempty?_eq_some_iff.mp hmaterial).1, hfree⟩

/-- Arranged entries stay as they are. -/
theorem arrange_arrange (es : List CacheEntry) : arrange (arrange es) = arrange es := by
  rw [arrange, List.mergeSort_of_pairwise (ordered_arrange es), List.filter_eq_self]
  exact fun e => isWritable_of_mem_arrange

/-- What was read and is written can be read again if its expiry can. -/
theorem parse_serialize_parse (text : String) :
    parse (serialize (parse text)) = (arrange (parse text)).filter (IsDated ·) := by
  rw [parse_serialize_eq_filterMap, arrange, List.filter_filter, ← List.filterMap_eq_filter]
  refine List.filterMap_congr fun e he => ?_
  have hmem : e ∈ parse text := List.mem_mergeSort.mp he
  -- What was read has a positive version and reads alike, so nothing else can go wrong.
  by_cases h : IsStorable e
  · have hkept : (decide (IsDated e) && isWritable e) = true := by
      simp [h.writable, (isStorable_iff.mp h).2]
    rw [stored?_eq_some_iff.mpr ⟨h, (asRead_of_mem_parse hmem).symm⟩, Option.guard, if_pos hkept]
  · have hlost : (decide (IsDated e) && isWritable e) ≠ true := by
      intro hkept
      simp only [Bool.and_eq_true, decide_eq_true_eq] at hkept
      exact h ⟨hkept.2, version_ne_zero_of_mem_parse hmem, hkept.1⟩
    rw [stored?_eq_none_iff.mpr h, Option.guard, if_neg hlost]

/-- **What was read is kept when it is written**, if its parts are free of carriage returns and the
year of its expiry has four digits; and what is written then does not change any more. -/
theorem rewriting_keeps_what_was_read (text : String) :
    ((parse (serialize (parse text))).filter (IsDated ·)).Perm
        ((parse text).filter fun e => FreeOfReturns e ∧ IsDated e) ∧
      ((∀ e ∈ parse text, FreeOfReturns e → IsDated e) →
        serialize (parse (serialize (parse text))) = serialize (parse text)) := by
  rw [parse_serialize_parse]
  constructor
  · have hkept : (parse text).filter (fun e => FreeOfReturns e ∧ IsDated e) =
        ((parse text).filter isWritable).filter (IsDated ·) := by
      rw [List.filter_filter]
      refine List.filter_congr fun e he => ?_
      rw [Bool.eq_iff_iff, Bool.and_eq_true, decide_eq_true_eq, decide_eq_true_eq,
        isWritable_iff_of_mem_parse he]
      exact and_comm
    have harranged : (arrange (parse text)).Perm ((parse text).filter isWritable) :=
      (List.mergeSort_perm _ _).filter isWritable
    rw [hkept, List.filter_filter]
    simp only [Bool.and_self]
    exact harranged.filter _
  · intro hdated
    have hall : (arrange (parse text)).filter (IsDated ·) = arrange (parse text) := by
      refine List.filter_eq_self.mpr fun e he => decide_eq_true ?_
      have hmem := mem_of_mem_arrange he
      exact hdated e hmem ((isWritable_iff_of_mem_parse hmem).mp (isWritable_of_mem_arrange he))
    rw [hall, serialize, serialize, arrange_arrange]

/-- A text with other spellings than those that are written: a signed version and one with zeros in
front, an expiry with an offset, and carriage returns, one of them inside a key. -/
def foreignText : String :=
  "topicseal-key-cache v1\r\ntopic\tt\r\n+01\t1970-01-01 02:00:00.50+02:00\t\tk\r\n" ++
    "0002\t\tn\tm\n3\t\t\ta\rb\n"

/-- Of the entries in the foreign text the first two are kept, and then the text is stable. -/
theorem rewriting_keeps_foreignText :
    (parse foreignText).length = 3 ∧
      ((parse (serialize (parse foreignText))).filter (IsDated ·)).Perm
        [⟨"t", ⟨1, none, "k"⟩, some ⟨0, 500000000, by decide⟩⟩, ⟨"t", ⟨2, some "n", "m"⟩, none⟩] ∧
      (∀ e ∈ parse foreignText, FreeOfReturns e → IsDated e) ∧
      serialize (parse (serialize (parse foreignText))) = serialize (parse foreignText) := by
  have hparse : parse foreignText =
      [⟨"t", ⟨1, none, "k"⟩, some ⟨0, 500000000, by decide⟩⟩, ⟨"t", ⟨2, some "n", "m"⟩, none⟩,
        ⟨"t", ⟨3, none, "a\rb"⟩, none⟩] := by decide +kernel
  have hdated : ∀ e ∈ parse foreignText, FreeOfReturns e → IsDated e := by
    rw [hparse]
    decide
  obtain ⟨hkept, hstable⟩ := rewriting_keeps_what_was_read foreignText
  have hreadable : ((parse foreignText).filter fun e => FreeOfReturns e ∧ IsDated e) =
      [⟨"t", ⟨1, none, "k"⟩, some ⟨0, 500000000, by decide⟩⟩, ⟨"t", ⟨2, some "n", "m"⟩, none⟩] := by
    rw [hparse]
    decide
  rw [hreadable] at hkept
  exact ⟨by rw [hparse]; rfl, hkept, hdated, hstable hdated⟩

/-- Not all that can be read is written again: not a key with a carriage return in it. -/
theorem not_forall_perm_parse_serialize_parse :
    ¬ ∀ text, (parse (serialize (parse text))).Perm (parse text) ∧
      serialize (parse (serialize (parse text))) = serialize (parse text) := by
  intro h
  have hparse : parse "topicseal-key-cache v1\ntopic\tt\n1\t\t\ta\rb\n" =
      [⟨"t", ⟨1, none, "a\rb"⟩, none⟩] := by decide +kernel
  have hlost : parse (serialize [⟨"t", ⟨1, none, "a\rb"⟩, none⟩]) = [] := by decide +kernel
  have hperm := (h "topicseal-key-cache v1\ntopic\tt\n1\t\t\ta\rb\n").1
  rw [hparse, hlost] at hperm
  exact absurd hperm.length_eq (by decide)

end TopicCipher.KeyCache
