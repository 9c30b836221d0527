import Mathlib.Data.Bool.Basic
import Mathlib.Data.List.Infix
import TopicCipher.KeyCache.Source
import TopicCipher.Proofs.Blank

/-!
# Writing entries and reading them back

The text of a key cache is read line by line, and each line is read on its own.  So reading back
what was written comes down to single lines: no written line breaks in two, a topic line says its
topic, and an entry line says the entry as far as it can be said in a line (`reread?`).

* `lines_ofLines`: the lines of a text are the lines that it was made of.
* `ofChars_topicLine`, `ofChars_entryLine`: what a written line says.
* `entriesBelow_append`, `parse_of_lines`: a text says what its lines below the heading say, one
  after the other.
* `parse_serialize`: reading back gives the arranged entries, each reread.
* `reread?_eq_some_iff`: rereading changes at most an empty key name and the digits of an expiry.
* `exists_lines_of_mem_parse`: whatever text is read, two lines of it say each entry.
* `version_ne_zero_of_mem_parse`: whatever text is read, no entry has version `0`.
* `forall_mem_parse_storedText`: what the cache stores, it loads.
-/

namespace TopicCipher.KeyCache

/-! ## Characters of a line -/

/-- Holds of texts without tabs and line breaks. -/
def Clean (cs : List Char) : Prop := ∀ c ∈ cs, breaksLine c = false

theorem clean_nil : Clean [] := fun _ h => absurd h List.not_mem_nil

theorem clean_append {cs ds : List Char} (hcs : Clean cs) (hds : Clean ds) : Clean (cs ++ ds) := by
  intro c hc
  rcases List.mem_append.mp hc with hc | hc
  · exact hcs c hc
  · exact hds c hc

theorem clean_cons {c : Char} {cs : List Char} (hc : breaksLine c = false) (hcs : Clean cs) :
    Clean (c :: cs) := by
  intro d hd
  rcases List.mem_cons.mp hd with rfl | hd
  · exact hc
  · exact hcs d hd

theorem clean_of_isDigit {cs : List Char} (h : ∀ c ∈ cs, c.isDigit = true) : Clean cs := by
  intro c hc
  have hdigit := h c hc
  simp only [breaksLine, Bool.or_eq_false_iff, beq_eq_false_iff_ne]
  refine ⟨⟨?_, ?_⟩, ?_⟩ <;> rintro rfl <;> exact absurd hdigit (by decide)

theorem clean_of_fitsLine {text : String} (h : fitsLine text = true) : Clean text.toList := by
  intro c hc
  rw [fitsLine, Bool.not_eq_eq_eq_not, Bool.not_true, List.any_eq_false] at h
  simpa using h c hc

theorem Clean.separator_notMem {cs : List Char} (h : Clean cs) : separator ∉ cs :=
  fun hmem => absurd (h _ hmem) (by decide)

theorem Clean.lineFeed_notMem {cs : List Char} (h : Clean cs) : '\n' ∉ cs :=
  fun hmem => absurd (h _ hmem) (by decide)

theorem Clean.return_notMem {cs : List Char} (h : Clean cs) : '\r' ∉ cs :=
  fun hmem => absurd (h _ hmem) (by decide)

theorem clean_paddedDigits (width n : Nat) : Clean (Timestamp.paddedDigits width n) := by
  refine clean_of_isDigit fun c hc => ?_
  rcases List.mem_append.mp hc with hc | hc
  · rw [(List.mem_replicate.mp hc).2]
    decide
  · exact Nat.isDigit_of_mem_toDigits (by decide) (by decide) hc

theorem clean_fractionChars (nano : Nat) : Clean (Timestamp.fractionChars nano) := by
  unfold Timestamp.fractionChars
  split
  · exact clean_nil
  · split_ifs <;> exact clean_cons rfl (clean_paddedDigits _ _)

theorem clean_yearDigits (year : Int) : Clean (Timestamp.yearDigits year) := by
  unfold Timestamp.yearDigits
  split_ifs
  · exact clean_cons rfl (clean_paddedDigits _ _)
  · exact clean_cons rfl (clean_paddedDigits _ _)
  · exact clean_paddedDigits _ _

theorem clean_dateChars (d : Calendar.Date) : Clean (Timestamp.dateChars d) :=
  clean_append
    (clean_append (clean_yearDigits _) (clean_cons rfl (clean_paddedDigits _ _)))
    (clean_cons rfl (clean_paddedDigits _ _))

theorem clean_clockChars (second nano : Nat) : Clean (Timestamp.clockChars second nano) :=
  clean_append
    (clean_append
      (clean_append (clean_paddedDigits _ _) (clean_cons rfl (clean_paddedDigits _ _)))
      (clean_cons rfl (clean_paddedDigits _ _)))
    (clean_fractionChars _)

/-- A timestamp has no tabs and no line breaks. -/
theorem clean_timestamp (t : Instant) : Clean (Timestamp.chars t) :=
  clean_append (clean_append (clean_dateChars _) (clean_cons rfl (clean_clockChars _ _)))
    (clean_cons rfl clean_nil)

theorem timestamp_ne_nil (t : Instant) : Timestamp.chars t ≠ [] := by
  simp [Timestamp.chars]

/-! ## Lines of a text -/

/-- A piece of a split consists of characters other than the one at which it is split. -/
theorem mem_and_ne_of_mem_splitOn {a : Char} {cs part : List Char} (h : part ∈ cs.splitOn a) :
    ∀ c ∈ part, c ∈ cs ∧ c ≠ a := by
  induction cs generalizing part with
  | nil =>
    rw [List.splitOn_nil, List.mem_singleton] at h
    rw [h]
    exact List.forall_mem_nil _
  | cons d cs ih =>
    have hlater {piece : List Char} (hpiece : piece ∈ cs.splitOn a) :
        ∀ c ∈ piece, c ∈ d :: cs ∧ c ≠ a :=
      fun c hc => (ih hpiece c hc).imp_left (List.mem_cons_of_mem d)
    rw [List.splitOn_cons_eq_if_modifyHead] at h
    split at h
    · rcases List.mem_cons.mp h with rfl | h
      · exact List.forall_mem_nil _
      · exact hlater h
    next hne =>
      obtain ⟨first, rest, hsplit⟩ := List.exists_cons_of_ne_nil (List.splitOn_ne_nil a cs)
      rw [hsplit] at hlater h
      rcases List.mem_cons.mp h with rfl | h
      · have hd : d ≠ a := by simpa using hne
        exact List.forall_mem_cons.mpr ⟨⟨List.mem_cons_self, hd⟩, hlater List.mem_cons_self⟩
      · exact hlater (List.mem_cons_of_mem first h)

theorem closeLines_cons {line : List Char} {rest : List (List Char)} (h : rest ≠ []) :
    closeLines (line :: rest) = dropReturn line :: closeLines rest := by
  obtain ⟨next, rest, rfl⟩ := List.exists_cons_of_ne_nil h
  rfl

/-- The lines of a text are the lines it was made of, but for a carriage return at their ends. -/
theorem lines_ofLines_eq_map {ls : List (List Char)} (hfeed : ∀ l ∈ ls, '\n' ∉ l) :
    lines (ofLines ls).toList = ls.map dropReturn := by
  rw [ofLines, String.toList_ofList]
  induction ls with
  | nil => rfl
  | cons line rest ih =>
    have hrest := ih fun l hl => hfeed l (List.mem_cons_of_mem line hl)
    rw [List.flatMap_cons, List.append_assoc, List.singleton_append, lines,
      List.splitOn_append_cons_self_of_not_mem (hfeed line List.mem_cons_self),
      closeLines_cons (List.splitOn_ne_nil _ _)]
    exact congrArg (dropReturn line :: ·) hrest

theorem dropReturn_eq_self {line : List Char} (h : '\r' ∉ line) : dropReturn line = line := by
  rw [dropReturn, if_neg]
  intro hlast
  exact h (List.mem_of_getLast? hlast)

/-- **The lines of a text are the lines it was made of**, if none of them breaks in two. -/
theorem lines_ofLines {ls : List (List Char)} (hfeed : ∀ l ∈ ls, '\n' ∉ l)
    (hreturn : ∀ l ∈ ls, '\r' ∉ l) : lines (ofLines ls).toList = ls := by
  rw [lines_ofLines_eq_map hfeed, List.map_congr_left fun l hl => dropReturn_eq_self (hreturn l hl),
    List.map_id']

/-! ## What a written line says -/

/-- What is left of an entry when it is written and read again: the year of an expiry may not be
readable, and an empty key name is no key name. -/
def reread? (e : CacheEntry) : Option CacheEntry := do
  let expiresAt ← readExpiry? (e.expiresAt.elim [] Timestamp.chars)
  if e.key.version = 0 then none
  else some ⟨e.topic, ⟨e.key.version, e.key.keyName.filter (· ≠ ""), e.key.material⟩, expiresAt⟩

theorem nonempty?_toList (text : String) :
    nonempty? text.toList = if text = "" then none else some text := by
  simp [nonempty?]

theorem nonempty?_keyName (keyName : Option String) :
    nonempty? (keyName.getD "").toList = keyName.filter (· ≠ "") := by
  rw [nonempty?_toList]
  rcases keyName with _ | name
  · rfl
  · by_cases hname : name = "" <;> simp [Option.filter, hname]

/-- The parts of an entry's line say what is left of the entry. -/
theorem entryOf?_parts {e : CacheEntry} (h : e.key.material ≠ "") :
    entryOf? e.key.version.digits (e.expiresAt.elim [] Timestamp.chars)
        (e.key.keyName.getD "").toList e.key.material.toList =
      (reread? e).map fun e => .entry e.key e.expiresAt := by
  rw [entryOf?, reread?, Version.read?_digits, nonempty?_keyName, nonempty?_toList, if_neg h]
  cases readExpiry? (e.expiresAt.elim [] Timestamp.chars) with
  | none => by_cases hzero : e.key.version = 0 <;> simp [hzero]
  | some expiresAt => by_cases hzero : e.key.version = 0 <;> simp [hzero]

/-- Carriage returns that are not there are not dropped. -/
theorem dropEndWhile_return {line : List Char} (h : '\r' ∉ line) :
    Text.dropEndWhile (· = '\r') line = line := by
  refine Text.dropEndWhile_eq_self fun c hc => ?_
  simp only [decide_eq_false_iff_not]
  rintro rfl
  exact h hc

/-- The character at which a line is split does not occur in what it is split into. -/
theorem notMem_intercalate {c d : Char} (hcd : c ≠ d) {parts : List (List Char)}
    (h : ∀ part ∈ parts, c ∉ part) : c ∉ [d].intercalate parts := by
  induction parts with
  | nil => exact List.not_mem_nil
  | cons part rest ih =>
    have hpart := h part List.mem_cons_self
    have hrest := ih fun p hp => h p (List.mem_cons_of_mem part hp)
    rcases rest with _ | ⟨next, rest⟩
    · simpa using hpart
    · rw [List.intercalate_cons_cons, List.mem_append, List.mem_append, List.mem_singleton]
      rintro ((hc | hc) | hc)
      · exact hpart hc
      · exact hcd hc
      · exact hrest hc

theorem topicLine_eq (topic : String) :
    topicLine topic = [separator].intercalate [topicWord.toList, topic.toList] := by
  simp [topicLine, List.intercalate_cons_cons]

theorem clean_topicParts {topic : String} (h : fitsLine topic = true) :
    ∀ part ∈ [topicWord.toList, topic.toList], Clean part := by
  intro part hpart
  rcases List.mem_cons.mp hpart with rfl | hpart
  · exact clean_of_fitsLine (by decide : fitsLine topicWord = true)
  · rw [List.mem_singleton.mp hpart]
    exact clean_of_fitsLine h

/-- A topic line says its topic. -/
theorem ofChars_topicLine {topic : String} (hfits : fitsLine topic = true) (hne : topic ≠ "") :
    Line.ofChars (topicLine topic) = .topic (some topic) := by
  have hclean := clean_topicParts hfits
  rw [Line.ofChars, topicLine_eq, dropEndWhile_return
    (notMem_intercalate (by decide) fun part hpart => (hclean part hpart).return_notMem),
    List.splitOn_intercalate separator
      (fun part hpart => (hclean part hpart).separator_notMem) (by simp)]
  simp [nonempty?_toList, hne]

/-- The parts of the line of an entry that can be written. -/
theorem clean_entryParts {e : CacheEntry} (h : isWritable e = true) :
    ∀ part ∈ [e.key.version.digits, e.expiresAt.elim [] Timestamp.chars,
      (e.key.keyName.getD "").toList, e.key.material.toList], Clean part := by
  simp only [isWritable, Bool.and_eq_true] at h
  obtain ⟨⟨⟨-, hname⟩, -⟩, hmaterial⟩ := h
  simp only [List.forall_mem_cons]
  refine ⟨clean_of_isDigit fun c hc => Version.isDigit_of_mem_digits hc, ?_, ?_,
    clean_of_fitsLine hmaterial, List.forall_mem_nil _⟩
  · cases e.expiresAt with
    | none => exact clean_nil
    | some t => exact clean_timestamp t
  · rcases hkeyName : e.key.keyName with _ | name
    · exact clean_nil
    · rw [hkeyName] at hname
      exact clean_of_fitsLine hname

theorem material_ne_of_isWritable {e : CacheEntry} (h : isWritable e = true) :
    e.key.material ≠ "" := by
  simp only [isWritable, Bool.and_eq_true, Bool.not_eq_eq_eq_not, Bool.not_true] at h
  simpa [String.isEmpty_iff] using h.1.2

/-- An entry line says what is left of its entry. -/
theorem ofChars_entryLine {e : CacheEntry} (h : isWritable e = true) :
    Line.ofChars (entryLine e) =
      ((reread? e).map fun e => .entry e.key e.expiresAt).getD .unreadable := by
  have hclean := clean_entryParts h
  rw [Line.ofChars, entryLine, dropEndWhile_return
    (notMem_intercalate (by decide) fun part hpart => (hclean part hpart).return_notMem),
    List.splitOn_intercalate separator
      (fun part hpart => (hclean part hpart).separator_notMem) (by simp)]
  exact congrArg (·.getD .unreadable) (entryOf?_parts (material_ne_of_isWritable h))

/-! ## What a text of some lines says -/

/-- A carriage return at the end of a line is dropped with all that is dropped there. -/
theorem dropEndWhile_dropReturn {drops : Char → Bool} (h : drops '\r' = true) (line : List Char) :
    Text.dropEndWhile drops (dropReturn line) = Text.dropEndWhile drops line := by
  rw [dropReturn]
  split
  next hlast =>
    obtain ⟨rest, rfl⟩ := List.getLast?_eq_some_iff.mp hlast
    rw [List.dropLast_concat, Text.dropEndWhile_eq_rdropWhile, Text.dropEndWhile_eq_rdropWhile,
      List.rdropWhile_concat_pos _ _ _ h]
  next => rfl

/-- A line says the same without the carriage return at its end. -/
theorem ofChars_dropReturn (line : List Char) :
    Line.ofChars (dropReturn line) = Line.ofChars line := by
  rw [Line.ofChars, Line.ofChars, dropEndWhile_dropReturn (by decide)]

/-- The parts of a line consist of characters of the line other than the separator. -/
theorem mem_and_ne_of_mem_parts {line part : List Char}
    (h : part ∈ (Text.dropEndWhile (· = '\r') line).splitOn separator) :
    ∀ c ∈ part, c ∈ line ∧ c ≠ separator := by
  intro c hc
  rw [Text.dropEndWhile_eq_rdropWhile] at h
  exact (mem_and_ne_of_mem_splitOn h c hc).imp_left
    fun hmem => (List.rdropWhile_prefix _ line).subset hmem

/-- A blank text is not a version. -/
theorem read?_of_blank {cs : List Char} (h : ∀ c ∈ cs, Text.isBlank c = true) :
    Version.read? cs = none := by
  rcases cs with _ | ⟨c, cs⟩
  · decide
  · have hblank := h c List.mem_cons_self
    have hsign : c ≠ '+' := by
      rintro rfl
      exact absurd hblank (by decide)
    have hdigit : c.isDigit = false := by
      by_contra hdigit
      rw [Text.isBlank_of_isDigit (by simpa using hdigit)] at hblank
      exact absurd hblank Bool.false_ne_true
    rw [Version.read?.eq_2 _ fun _ heq => hsign (List.cons.inj heq).1, Version.readDigits?, if_neg]
    simp [hdigit]

/-- A blank line says nothing. -/
theorem ofChars_of_blank {line : List Char} (h : ∀ c ∈ line, Text.isBlank c = true) :
    Line.ofChars line = .unreadable := by
  have hpart : ∀ part ∈ (Text.dropEndWhile (· = '\r') line).splitOn separator,
      ∀ c ∈ part, Text.isBlank c = true :=
    fun part hpart c hc => h c (mem_and_ne_of_mem_parts hpart c hc).1
  -- The word of a topic line has a letter in it, and a version has a sign or a digit.
  rw [Line.ofChars]
  split
  next word name hparts =>
    rw [if_neg]
    rintro rfl
    have hletter : Text.isBlank 't' = true :=
      hpart topicWord.toList (by simp [hparts]) 't' (by decide)
    exact absurd hletter (by decide)
  next version expiry keyName material hparts =>
    rw [entryOf?, read?_of_blank (hpart version (by simp [hparts]))]
    rfl
  next => rfl

theorem entriesBelow_unreadable (topic : Option String) (rest : List Line) :
    entriesBelow topic (.unreadable :: rest) = entriesBelow topic rest := by
  cases topic <;> rfl

theorem entriesBelow_topic (topic name : Option String) (rest : List Line) :
    entriesBelow topic (.topic name :: rest) = entriesBelow name rest := by
  cases topic <;> rfl

/-- The topic that some lines leave in force. -/
def topicBelow : (topic : Option String) → List Line → Option String
  | topic, [] => topic
  | _, .topic name :: rest => topicBelow name rest
  | topic, _ :: rest => topicBelow topic rest

theorem topicBelow_cons (topic : Option String) (line : Line) (rest : List Line) :
    topicBelow topic (line :: rest) = topicBelow (topicBelow topic [line]) rest := by
  cases line <;> rfl

theorem entriesBelow_cons (topic : Option String) (line : Line) (rest : List Line) :
    entriesBelow topic (line :: rest) =
      entriesBelow topic [line] ++ entriesBelow (topicBelow topic [line]) rest := by
  cases line with
  | topic name => cases topic <;> cases name <;> rfl
  | entry key expiresAt => cases topic <;> rfl
  | unreadable => cases topic <;> rfl

/-- What some lines say is what the first ones say and what the others say below them. -/
theorem entriesBelow_append (topic : Option String) (ls rest : List Line) :
    entriesBelow topic (ls ++ rest) =
      entriesBelow topic ls ++ entriesBelow (topicBelow topic ls) rest := by
  induction ls generalizing topic with
  | nil => cases topic <;> rfl
  | cons line ls ih =>
    rw [List.cons_append, entriesBelow_cons, ih, ← List.append_assoc, ← entriesBelow_cons,
      ← topicBelow_cons]

/-- Lines that are left out because they say nothing would not have added an entry. -/
theorem entriesBelow_filter {kept : List Char → Bool} {ls : List (List Char)}
    (h : ∀ line ∈ ls, kept line = false → Line.ofChars line = .unreadable)
    (topic : Option String) :
    entriesBelow topic ((ls.filter kept).map Line.ofChars) =
      entriesBelow topic (ls.map Line.ofChars) := by
  induction ls generalizing topic with
  | nil => rfl
  | cons line rest ih =>
    have hrest := ih fun l hl => h l (List.mem_cons_of_mem line hl)
    by_cases hkept : kept line = true
    · rw [List.filter_cons_of_pos hkept, List.map_cons, List.map_cons, entriesBelow_cons, hrest,
        ← entriesBelow_cons]
    · have hunreadable := h line List.mem_cons_self (Bool.eq_false_of_not_eq_true hkept)
      rw [List.filter_cons_of_neg hkept, List.map_cons, hunreadable, entriesBelow_unreadable, hrest]

/-- The lines down to the header, which is the first one that is not blank. -/
inductive IsHeading : List (List Char) → Prop where
  | header {line : List Char} (hline : Text.dropEndWhile Text.isBlank line = header.toList) :
      IsHeading [line]
  | blank {line : List Char} {rest : List (List Char)} (hline : ∀ c ∈ line, Text.isBlank c = true) :
      IsHeading rest → IsHeading (line :: rest)

theorem IsHeading.ne_nil {heading : List (List Char)} (h : IsHeading heading) : heading ≠ [] := by
  cases h <;> exact List.cons_ne_nil _ _

/-- Of a heading, the header is all that is not blank. -/
theorem IsHeading.exists_filter_eq {heading : List (List Char)} (h : IsHeading heading)
    (rest : List (List Char)) :
    ∃ first, Text.dropEndWhile Text.isBlank first = KeyCache.header.toList ∧
      (heading ++ rest).filter (fun line => !line.all Text.isBlank) =
        first :: rest.filter fun line => !line.all Text.isBlank := by
  induction h with
  | @header line hline =>
    refine ⟨line, hline, ?_⟩
    rw [List.singleton_append, List.filter_cons_of_pos]
    -- a blank line would be empty without the blanks at its end, which the header is not
    rw [Bool.not_eq_eq_eq_not, Bool.not_true, Bool.eq_false_iff]
    intro hblank
    rw [Text.dropEndWhile_eq_rdropWhile,
      List.rdropWhile_eq_nil_iff.mpr fun c hc => List.all_eq_true.mp hblank c hc] at hline
    exact absurd hline (by decide)
  | blank hline _ ih =>
    obtain ⟨first, hfirst, hfilter⟩ := ih
    refine ⟨first, hfirst, ?_⟩
    rw [List.cons_append, List.filter_cons_of_neg, hfilter]
    simpa using hline

/-- **A text says what the lines below its heading say.** -/
theorem parse_of_lines {text : String} {heading rest : List (List Char)} (h : IsHeading heading)
    (hlines : lines text.toList = heading ++ rest) :
    parse text = entriesBelow none (rest.map Line.ofChars) := by
  obtain ⟨first, hfirst, hfilter⟩ := h.exists_filter_eq rest
  rw [parse, hlines, hfilter]
  show (if Text.dropEndWhile Text.isBlank first = KeyCache.header.toList then _ else _) = _
  rw [if_pos hfirst, entriesBelow_filter]
  intro line _ hblank
  rw [Bool.not_eq_eq_eq_not, Bool.not_false, List.all_eq_true] at hblank
  exact ofChars_of_blank hblank

/-- **A text of some lines says what they say below the header.** -/
theorem parse_ofLines {ls : List (List Char)} (hfeed : ∀ line ∈ ls, '\n' ∉ line) :
    parse (ofLines (header.toList :: ls)) = entriesBelow none (ls.map Line.ofChars) := by
  have hall : ∀ line ∈ header.toList :: ls, '\n' ∉ line :=
    List.forall_mem_cons.mpr ⟨by decide, hfeed⟩
  have hlines : lines (ofLines (header.toList :: ls)).toList =
      [header.toList] ++ ls.map dropReturn := by
    rw [lines_ofLines_eq_map hall, List.map_cons, show dropReturn header.toList = header.toList by
      decide, List.singleton_append]
  rw [parse_of_lines (.header (by decide)) hlines, List.map_map]
  exact congrArg (entriesBelow none) (List.map_congr_left fun line _ => ofChars_dropReturn line)

/-! ## What a written text says -/

theorem topic_of_isWritable {e : CacheEntry} (h : isWritable e = true) :
    fitsLine e.topic = true ∧ e.topic ≠ "" := by
  simp only [isWritable, Bool.and_eq_true, Bool.not_eq_eq_eq_not, Bool.not_true] at h
  exact ⟨h.1.1.1.2, by simpa [String.isEmpty_iff] using h.1.1.1.1⟩

theorem topic_of_reread? {e e' : CacheEntry} (h : reread? e = some e') : e'.topic = e.topic := by
  simp only [reread?, Option.bind_eq_bind, Option.bind_eq_some_iff] at h
  obtain ⟨expiresAt, -, h⟩ := h
  split at h
  · exact absurd h (by simp)
  · rw [← Option.some.inj h]

/-- An entry line below the line of its topic adds what is left of the entry. -/
theorem entriesBelow_entryLine {e : CacheEntry} (h : isWritable e = true) (rest : List Line) :
    entriesBelow (some e.topic) (Line.ofChars (entryLine e) :: rest) =
      (reread? e).toList ++ entriesBelow (some e.topic) rest := by
  rw [ofChars_entryLine h]
  rcases hread : reread? e with _ | e'
  · rfl
  · rw [← topic_of_reread? hread]
    rfl

/-- The lines of some entries say what is left of the entries, one after the other, whatever topic
the lines above are about. -/
theorem entriesBelow_entryLines {es : List CacheEntry} (h : ∀ e ∈ es, isWritable e = true)
    (current : Option String) :
    entriesBelow current ((entryLines current es).map Line.ofChars) = es.filterMap reread? := by
  induction es generalizing current with
  | nil => cases current <;> rfl
  | cons e rest ih =>
    have he := h e List.mem_cons_self
    have hrest := ih (fun e' he' => h e' (List.mem_cons_of_mem e he')) (some e.topic)
    have hcons : (e :: rest).filterMap reread? = (reread? e).toList ++ rest.filterMap reread? := by
      rw [List.filterMap_cons]
      cases reread? e <;> rfl
    rw [entryLines]
    split
    next hcurrent =>
      rw [List.map_cons, hcurrent, entriesBelow_entryLine he, hrest, hcons]
    next hcurrent =>
      obtain ⟨hfits, hne⟩ := topic_of_isWritable he
      rw [List.map_cons, List.map_cons, ofChars_topicLine hfits hne, entriesBelow,
        entriesBelow_entryLine he, hrest, hcons]

/-- What holds of all lines of some entries holds of the topic lines and the entry lines. -/
theorem forall_mem_entryLines {Q : List Char → Prop} {es : List CacheEntry}
    (htopic : ∀ e ∈ es, Q (topicLine e.topic)) (hentry : ∀ e ∈ es, Q (entryLine e))
    (current : Option String) : ∀ line ∈ entryLines current es, Q line := by
  induction es generalizing current with
  | nil => exact List.forall_mem_nil Q
  | cons e rest ih =>
    have hrest (current) := ih (fun e' he' => htopic e' (List.mem_cons_of_mem e he'))
      (fun e' he' => hentry e' (List.mem_cons_of_mem e he')) current
    rw [entryLines]
    split
    · exact List.forall_mem_cons.mpr ⟨hentry e List.mem_cons_self, hrest _⟩
    · exact List.forall_mem_cons.mpr ⟨htopic e List.mem_cons_self,
        List.forall_mem_cons.mpr ⟨hentry e List.mem_cons_self, hrest _⟩⟩

theorem isWritable_of_mem_arrange {es : List CacheEntry} {e : CacheEntry} (h : e ∈ arrange es) :
    isWritable e = true :=
  (List.mem_filter.mp h).2

theorem mem_of_mem_arrange {es : List CacheEntry} {e : CacheEntry} (h : e ∈ arrange es) : e ∈ es :=
  List.mem_mergeSort.mp (List.mem_filter.mp h).1

/-- A line that breaks nowhere. -/
structure Stands (line : List Char) : Prop where
  lineFeed_notMem : '\n' ∉ line
  return_notMem : '\r' ∉ line

theorem stands_header : Stands header.toList := ⟨by decide, by decide⟩

theorem stands_topicLine {topic : String} (h : fitsLine topic = true) :
    Stands (topicLine topic) := by
  have hclean := clean_topicParts h
  rw [topicLine_eq]
  exact ⟨notMem_intercalate (by decide) fun part hpart => (hclean part hpart).lineFeed_notMem,
    notMem_intercalate (by decide) fun part hpart => (hclean part hpart).return_notMem⟩

theorem stands_entryLine {e : CacheEntry} (h : isWritable e = true) : Stands (entryLine e) := by
  have hclean := clean_entryParts h
  exact ⟨notMem_intercalate (by decide) fun part hpart => (hclean part hpart).lineFeed_notMem,
    notMem_intercalate (by decide) fun part hpart => (hclean part hpart).return_notMem⟩

theorem stands_of_mem_lines {es : List CacheEntry} {line : List Char}
    (h : line ∈ header.toList :: entryLines none (arrange es)) : Stands line := by
  have hwritable : ∀ e ∈ arrange es, isWritable e = true := fun e => isWritable_of_mem_arrange
  rcases List.mem_cons.mp h with rfl | h
  · exact stands_header
  · exact forall_mem_entryLines
      (fun e he => stands_topicLine (topic_of_isWritable (hwritable e he)).1)
      (fun e he => stands_entryLine (hwritable e he)) none line h

/-- The lines of a written text. -/
theorem lines_serialize (es : List CacheEntry) :
    lines (serialize es).toList = header.toList :: entryLines none (arrange es) :=
  lines_ofLines (fun _ hl => (stands_of_mem_lines hl).lineFeed_notMem)
    fun _ hl => (stands_of_mem_lines hl).return_notMem

/-- **Reading back a written text** gives the entries in their order, as far as a line can say
them. -/
theorem parse_serialize (es : List CacheEntry) :
    parse (serialize es) = (arrange es).filterMap reread? := by
  have hfeed : ∀ line ∈ entryLines none (arrange es), '\n' ∉ line :=
    fun line hline => (stands_of_mem_lines (List.mem_cons_of_mem _ hline)).lineFeed_notMem
  rw [serialize, parse_ofLines hfeed, entriesBelow_entryLines fun e => isWritable_of_mem_arrange]

/-- A text without entries says none. -/
theorem parse_empty : parse empty = [] := by decide

/-! ## What is left of an entry -/

/-- Rereading changes at most an empty key name and the digits of an expiry. -/
theorem reread?_eq_some_iff {e e' : CacheEntry} :
    reread? e = some e' ↔
      readExpiry? (e.expiresAt.elim [] Timestamp.chars) = some e'.expiresAt ∧
        e.key.version ≠ 0 ∧ e'.topic = e.topic ∧
        e'.key = ⟨e.key.version, e.key.keyName.filter (· ≠ ""), e.key.material⟩ := by
  rw [reread?, Option.bind_eq_bind, Option.bind_eq_some_iff]
  obtain ⟨topic', key', expiresAt'⟩ := e'
  by_cases hzero : e.key.version = 0
  · simp [hzero]
  · simp only [hzero, if_false, Option.some.injEq, CacheEntry.mk.injEq]
    constructor
    · rintro ⟨expiresAt, hread, rfl, rfl, rfl⟩
      exact ⟨hread, hzero, rfl, rfl⟩
    · rintro ⟨hread, -, rfl, rfl⟩
      exact ⟨expiresAt', hread, rfl, rfl, rfl⟩

/-- Rereading does not turn entries for encryption into others. -/
theorem isEncryption_of_reread? {e e' : CacheEntry} (h : reread? e = some e') :
    e'.isEncryption = e.isEncryption := by
  have hread := (reread?_eq_some_iff.mp h).1
  rw [CacheEntry.isEncryption, CacheEntry.isEncryption]
  rcases hexpiry : e.expiresAt with _ | t
  · rw [hexpiry] at hread
    rw [← Option.some.inj hread]
  · rw [hexpiry, Option.elim_some, readExpiry?.eq_2 _ (timestamp_ne_nil t)] at hread
    obtain ⟨t', -, ht'⟩ := Option.map_eq_some_iff.mp hread
    rw [← ht']
    rfl

/-! ## What any text says -/

theorem mem_of_mem_dropReturn {line : List Char} {c : Char} (h : c ∈ dropReturn line) :
    c ∈ line := by
  rw [dropReturn] at h
  split at h
  · exact List.mem_of_mem_dropLast h
  · exact h

/-- A line is a piece of the text, or a piece that ended in a carriage return. -/
theorem exists_mem_of_mem_closeLines {pieces : List (List Char)} {line : List Char}
    (h : line ∈ closeLines pieces) : ∃ piece ∈ pieces, ∀ c ∈ line, c ∈ piece := by
  induction pieces with
  | nil => exact absurd h List.not_mem_nil
  | cons piece rest ih =>
    rcases rest with _ | ⟨next, rest⟩
    · rw [closeLines] at h
      split at h
      · exact absurd h List.not_mem_nil
      · exact ⟨piece, List.mem_cons_self, fun c hc => by rwa [← List.mem_singleton.mp h]⟩
    · rw [closeLines_cons (List.cons_ne_nil next rest)] at h
      rcases List.mem_cons.mp h with rfl | h
      · exact ⟨piece, List.mem_cons_self, fun c hc => mem_of_mem_dropReturn hc⟩
      · obtain ⟨other, hother, hsub⟩ := ih h
        exact ⟨other, List.mem_cons_of_mem piece hother, hsub⟩

theorem lineFeed_notMem_of_mem_lines {text line : List Char} (h : line ∈ lines text) :
    '\n' ∉ line := by
  obtain ⟨piece, hpiece, hsub⟩ := exists_mem_of_mem_closeLines h
  intro hfeed
  exact (mem_and_ne_of_mem_splitOn hpiece _ (hsub _ hfeed)).2 rfl

/-- Every entry below some lines is said by one of them. -/
theorem entry_mem_of_mem_entriesBelow {e : CacheEntry} {topic : Option String} {ls : List Line}
    (h : e ∈ entriesBelow topic ls) : .entry e.key e.expiresAt ∈ ls := by
  induction ls generalizing topic with
  | nil => cases topic <;> exact absurd h List.not_mem_nil
  | cons line rest ih =>
    cases line with
    | topic name => cases topic <;> exact List.mem_cons_of_mem _ (ih h)
    | unreadable => cases topic <;> exact List.mem_cons_of_mem _ (ih h)
    | entry key expiresAt =>
      cases topic with
      | none => exact List.mem_cons_of_mem _ (ih h)
      | some topic =>
        rcases List.mem_cons.mp h with rfl | h
        · exact List.mem_cons_self
        · exact List.mem_cons_of_mem _ (ih h)

theorem nonempty?_ne_some_empty (cs : List Char) : nonempty? cs ≠ some "" := by
  rw [nonempty?]
  split
  · exact (Option.some_ne_none "").symm
  next hne =>
    intro h
    have hempty := congrArg String.toList (Option.some.inj h)
    rw [String.toList_ofList] at hempty
    exact hne hempty

theorem nonempty?_eq_some_iff {cs : List Char} {text : String} :
    nonempty? cs = some text ↔ text ≠ "" ∧ text.toList = cs := by
  constructor
  · intro h
    refine ⟨fun hempty => nonempty?_ne_some_empty cs (hempty ▸ h), ?_⟩
    rw [nonempty?] at h
    split at h
    · exact absurd h.symm (Option.some_ne_none text)
    · rw [← Option.some.inj h, String.toList_ofList]
  · rintro ⟨hne, rfl⟩
    rw [nonempty?_toList, if_neg hne]

/-- Four parts of a line say an entry or nothing, and each part of the entry is one of them. -/
theorem exists_entry_of_entryOf? {version expiry keyName material : List Char} {said : Line}
    (h : entryOf? version expiry keyName material = some said) :
    ∃ key expiresAt, said = .entry key expiresAt ∧ key.version ≠ 0 ∧
      readExpiry? expiry = some expiresAt ∧ key.keyName = nonempty? keyName ∧
      nonempty? material = some key.material := by
  simp only [entryOf?, Option.bind_eq_bind, Option.bind_eq_some_iff] at h
  obtain ⟨v, -, h⟩ := h
  split at h
  · exact absurd h (by simp)
  next hzero =>
    simp only [Option.bind_eq_some_iff, Option.some.injEq] at h
    obtain ⟨expiresAt, hexpiry, text, hmaterial, rfl⟩ := h
    exact ⟨_, expiresAt, rfl, hzero, hexpiry, rfl, hmaterial⟩

/-- An entry line has four parts, and they say the entry. -/
theorem exists_parts_of_ofChars {line : List Char} {key : KeyVersion} {expiresAt : Option Instant}
    (h : Line.ofChars line = .entry key expiresAt) :
    ∃ version expiry keyName material,
      (Text.dropEndWhile (· = '\r') line).splitOn separator =
        [version, expiry, keyName, material] ∧
      entryOf? version expiry keyName material = some (.entry key expiresAt) := by
  rw [Line.ofChars] at h
  split at h
  · split at h <;> exact absurd h (by simp)
  next version expiry keyName material hparts =>
    rcases hentry : entryOf? version expiry keyName material with _ | said
    · rw [hentry] at h
      exact absurd h (by simp)
    · rw [hentry] at h
      obtain rfl := h
      exact ⟨version, expiry, keyName, material, hparts, hentry⟩
  · exact absurd h (by simp)

/-- A topic line that names a topic has two parts, and the second one says the topic. -/
theorem exists_part_of_ofChars {line : List Char} {topic : String}
    (h : Line.ofChars line = .topic (some topic)) :
    ∃ part ∈ (Text.dropEndWhile (· = '\r') line).splitOn separator,
      nonempty? part = some topic := by
  rw [Line.ofChars] at h
  split at h
  next word name hparts =>
    split at h
    · exact ⟨name, by simp [hparts], by simpa using h⟩
    · exact absurd h (by simp)
  next version expiry keyName material _ =>
    rcases hentry : entryOf? version expiry keyName material with _ | said
    · rw [hentry] at h
      exact absurd h (by simp)
    · obtain ⟨key, expiresAt, rfl, -⟩ := exists_entry_of_entryOf? hentry
      rw [hentry] at h
      exact absurd h (by simp)
  · exact absurd h (by simp)

/-- The key in a line has a positive version, and a name that is not empty if it has one; its expiry
is read from a part of the line. -/
theorem entry_of_ofChars {line : List Char} {key : KeyVersion} {expiresAt : Option Instant}
    (h : Line.ofChars line = .entry key expiresAt) :
    key.version ≠ 0 ∧ key.keyName ≠ some "" ∧ ∃ part, readExpiry? part = some expiresAt := by
  obtain ⟨_, expiry, keyName, _, -, hentry⟩ := exists_parts_of_ofChars h
  obtain ⟨key', expiresAt', hsaid, hversion, hexpiry, hname, -⟩ := exists_entry_of_entryOf? hentry
  obtain ⟨rfl, rfl⟩ := Line.entry.inj hsaid
  refine ⟨hversion, ?_, expiry, hexpiry⟩
  rw [hname]
  exact nonempty?_ne_some_empty keyName

/-- Every entry below some lines belongs to the topic above them or to one that they name. -/
theorem topic_mem_of_mem_entriesBelow {e : CacheEntry} {topic : Option String} {ls : List Line}
    (h : e ∈ entriesBelow topic ls) : topic = some e.topic ∨ .topic (some e.topic) ∈ ls := by
  induction ls generalizing topic with
  | nil => cases topic <;> exact absurd h List.not_mem_nil
  | cons line rest ih =>
    have hlater {above : Option String} (h : e ∈ entriesBelow above rest) :
        above = some e.topic ∨ Line.topic (some e.topic) ∈ line :: rest :=
      (ih h).imp_right (List.mem_cons_of_mem line)
    cases line with
    | topic name =>
      rw [entriesBelow_topic] at h
      rcases ih h with rfl | hrest
      · exact .inr List.mem_cons_self
      · exact .inr (List.mem_cons_of_mem _ hrest)
    | unreadable => cases topic <;> exact hlater h
    | entry key expiresAt =>
      cases topic with
      | none => exact hlater h
      | some topic =>
        rcases List.mem_cons.mp h with rfl | h
        · exact .inl rfl
        · exact hlater h

/-- What a text says is said by its lines below a header, or it says nothing. -/
theorem parse_cases (text : String) :
    parse text = [] ∨ ∃ ls : List (List Char), (∀ line ∈ ls, line ∈ lines text.toList) ∧
      parse text = entriesBelow none (ls.map Line.ofChars) := by
  rw [parse]
  split
  · exact .inl rfl
  next first rest hlines =>
    split
    · refine .inr ⟨rest, fun line hline => ?_, rfl⟩
      have hmem : line ∈ first :: rest := List.mem_cons_of_mem first hline
      rw [← hlines] at hmem
      exact (List.mem_filter.mp hmem).1
    · exact .inl rfl

/-- **What any text says of an entry, two lines of it say**: the line of its topic and its own. -/
theorem exists_lines_of_mem_parse {text : String} {e : CacheEntry} (h : e ∈ parse text) :
    (∃ line ∈ lines text.toList, Line.ofChars line = .topic (some e.topic)) ∧
      ∃ line ∈ lines text.toList, Line.ofChars line = .entry e.key e.expiresAt := by
  rcases parse_cases text with hnone | ⟨ls, hls, hparse⟩
  · rw [hnone] at h
    exact absurd h List.not_mem_nil
  · rw [hparse] at h
    rcases topic_mem_of_mem_entriesBelow h with habsurd | htopic
    · exact absurd habsurd.symm (Option.some_ne_none e.topic)
    · obtain ⟨line, hline, htells⟩ := List.mem_map.mp htopic
      obtain ⟨own, hown, hentry⟩ := List.mem_map.mp (entry_mem_of_mem_entriesBelow h)
      exact ⟨⟨line, hls line hline, htells⟩, own, hls own hown, hentry⟩

/-- What any text says of an entry, some line of it says. -/
theorem exists_line_of_mem_parse {text : String} {e : CacheEntry} (h : e ∈ parse text) :
    ∃ line, Line.ofChars line = .entry e.key e.expiresAt := by
  obtain ⟨-, line, -, hline⟩ := exists_lines_of_mem_parse h
  exact ⟨line, hline⟩

/-- **No text holds a key with version `0`.** -/
theorem version_ne_zero_of_mem_parse {text : String} {e : CacheEntry} (h : e ∈ parse text) :
    e.key.version ≠ 0 := by
  obtain ⟨line, hline⟩ := exists_line_of_mem_parse h
  exact (entry_of_ofChars hline).1

/-- What holds of all entries and of what is left of them holds of all that the text says. -/
theorem forall_mem_parse_serialize {V : CacheEntry → Prop}
    (hread : ∀ e e', V e → reread? e = some e' → V e') {es : List CacheEntry} (h : ∀ e ∈ es, V e) :
    ∀ e ∈ parse (serialize es), V e := by
  intro e he
  rw [parse_serialize] at he
  obtain ⟨written, hwritten, hleft⟩ := List.mem_filterMap.mp he
  exact hread written e (h written (mem_of_mem_arrange hwritten)) hleft

/-- So does it of all that the stored text says. -/
theorem forall_mem_parse_storedText {V : CacheEntry → Prop}
    (hread : ∀ e e', V e → reread? e = some e' → V e') {es : List CacheEntry}
    (h : ∀ e ∈ es, V e) (maxChars : Nat) : ∀ e ∈ parse (storedText es maxChars), V e := by
  intro e he
  rw [storedText] at he
  split at he
  · rw [parse_empty] at he
    exact absurd he List.not_mem_nil
  · exact forall_mem_parse_serialize hread h e he

end TopicCipher.KeyCache
