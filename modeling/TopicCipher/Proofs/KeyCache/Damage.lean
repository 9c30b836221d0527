import Mathlib.Data.List.Forall2
import Mathlib.Data.List.Perm.Subperm
import TopicCipher.Proofs.KeyCache.Order

/-!
# Damaged lines

A line that cannot be read is skipped, and what is read below it is read as if it was not there.
For an entry line that costs one entry.  But an entry line says no topic: the topic is that of the
last topic line above it.  So where a topic line cannot be read, the entries below it go to the
topic line before that one, and without such a line they are lost.

Nothing else can go wrong.  The keys and expiries that are read were stored, each of them is read at
most as often as it was stored, and its topic is the one that it was stored for unless the damaged
line is the line of this topic.

* `exists_sublist_of_topic`: below another topic the same keys are read.
* `exists_sublist_of_skipped`: what is read when one line is left out.
* `exists_stored_of_damaged`: what is read from a text with a damaged line.
-/

namespace TopicCipher.KeyCache

/-! ## A line that is skipped -/

/-- What was read as `stored` is read as `e` when a line is skipped: as the same entry, or the line
named its topic and `e` has the topic that is in force without it. -/
def ReadsAs (inForce : Option String) (line : Line) (e stored : CacheEntry) : Prop :=
  e = stored ∨ line = .topic (some stored.topic) ∧ inForce = some e.topic ∧
    e = { stored with topic := e.topic }

/-- Below the topic in force, entries are read as below a line that names one, but for their topic;
some of these are not read if no topic is in force. -/
theorem exists_sublist_of_topic (inForce : Option String) (topic : String) (rest : List Line) :
    ∃ kept : List CacheEntry, kept.Sublist (entriesBelow (some topic) rest) ∧
      List.Forall₂ (ReadsAs inForce (.topic (some topic))) (entriesBelow inForce rest) kept := by
  induction rest with
  | nil =>
    refine ⟨[], List.Sublist.refl _, ?_⟩
    cases inForce <;> exact List.Forall₂.nil
  | cons line rest ih =>
    obtain ⟨kept, hkept, hall⟩ := ih
    cases line with
    | topic name =>
      -- The next topic line ends the difference: below it both read alike.
      refine ⟨entriesBelow name rest, List.Sublist.refl _, ?_⟩
      rw [entriesBelow_topic]
      exact List.forall₂_same.mpr fun e _ => .inl rfl
    | unreadable =>
      rw [entriesBelow_unreadable, entriesBelow_unreadable]
      exact ⟨kept, hkept, hall⟩
    | entry key expiresAt =>
      -- Where no topic is in force the entry is lost, and otherwise it changes its topic.
      cases inForce with
      | none => exact ⟨kept, hkept.cons _, hall⟩
      | some above =>
        exact ⟨⟨topic, key, expiresAt⟩ :: kept, hkept.cons_cons _,
          .cons (.inr ⟨rfl, rfl, rfl⟩) hall⟩

/-- Without a line, what is read was read with it, but for the topics that it named. -/
theorem exists_sublist_of_skipped {line : Line} (hline : line ≠ .topic none)
    (inForce : Option String) (rest : List Line) :
    ∃ kept : List CacheEntry, kept.Sublist (entriesBelow inForce (line :: rest)) ∧
      List.Forall₂ (ReadsAs inForce line) (entriesBelow inForce rest) kept := by
  have hsame : List.Forall₂ (ReadsAs inForce line) (entriesBelow inForce rest)
      (entriesBelow inForce rest) := List.forall₂_same.mpr fun e _ => .inl rfl
  cases line with
  | topic name =>
    rw [entriesBelow_topic]
    cases name with
    | none => exact absurd rfl hline
    | some topic => exact exists_sublist_of_topic inForce topic rest
  | unreadable =>
    rw [entriesBelow_unreadable]
    exact ⟨_, List.Sublist.refl _, hsame⟩
  | entry key expiresAt =>
    cases inForce with
    | none => exact ⟨_, List.Sublist.refl _, hsame⟩
    | some topic => exact ⟨_, List.sublist_cons_self _ _, hsame⟩

/-! ## A line of a written text -/

/-- Among the lines of a written text, only the topic lines say a topic. -/
theorem eq_topicLine_of_mem_lines {es : List CacheEntry} {line : List Char} {name : Option String}
    (hline : line ∈ lines (serialize es).toList) (htells : Line.ofChars line = .topic name) :
    ∃ topic, name = some topic ∧ line = topicLine topic := by
  have hwritable : ∀ e ∈ arrange es, isWritable e = true := fun e => isWritable_of_mem_arrange
  rw [lines_serialize] at hline
  rcases List.mem_cons.mp hline with rfl | hline
  · rw [show Line.ofChars header.toList = .unreadable by decide] at htells
    exact absurd htells (by simp)
  · revert name
    refine forall_mem_entryLines (Q := fun line => ∀ {name}, Line.ofChars line = .topic name →
      ∃ topic, name = some topic ∧ line = topicLine topic) ?_ ?_ none line hline
    · intro e he name htells
      obtain ⟨hfits, hne⟩ := topic_of_isWritable (hwritable e he)
      rw [ofChars_topicLine hfits hne] at htells
      exact ⟨e.topic, (Line.topic.inj htells).symm, rfl⟩
    · intro e he name htells
      rw [ofChars_entryLine (hwritable e he)] at htells
      rcases hread : reread? e with _ | e' <;> rw [hread] at htells <;>
        exact absurd htells (by simp)

/-- What a text keeps of some entries are some of the entries, as they read. -/
theorem exists_subperm_of_sublist {es kept : List CacheEntry}
    (h : kept.Sublist (parse (serialize es))) :
    ∃ stored : List CacheEntry, stored.Subperm es ∧ kept = stored.map asRead := by
  have hread := filterMap_sublist_map (f := stored?) (g := asRead)
    (l := es.mergeSort fun a b => (a.order b).isLE)
    fun e _ e' hstored => (stored?_eq_some_iff.mp hstored).2
  rw [parse_serialize_eq_filterMap] at h
  obtain ⟨stored, hsublist, rfl⟩ := List.sublist_map_iff.mp (h.trans hread)
  exact ⟨stored, hsublist.subperm.trans (List.mergeSort_perm es _).subperm, rfl⟩

/-- What a text says in which a line below the header was replaced by one that cannot be read. -/
theorem exists_sublist_of_damaged {es : List CacheEntry} {above below : List (List Char)}
    {line damage : List Char} (hlines : lines (serialize es).toList = above ++ line :: below)
    (habove : above ≠ []) (hfeed : '\n' ∉ damage) (hdamage : Line.ofChars damage = .unreadable) :
    ∃ kept : List CacheEntry, kept.Sublist (parse (serialize es)) ∧
      List.Forall₂ (ReadsAs (topicBelow none (above.map Line.ofChars)) (Line.ofChars line))
        (parse (ofLines (above ++ damage :: below))) kept := by
  obtain ⟨first, above, rfl⟩ := List.exists_cons_of_ne_nil habove
  rw [lines_serialize, List.cons_append, List.cons.injEq] at hlines
  obtain ⟨rfl, hlines⟩ := hlines
  have hnone : ∀ l ∈ above ++ line :: below, '\n' ∉ l := by
    intro l hl
    rw [← hlines] at hl
    exact (stands_of_mem_lines (List.mem_cons_of_mem _ hl)).lineFeed_notMem
  have hnone' : ∀ l ∈ above ++ damage :: below, '\n' ∉ l := by
    intro l hl
    rcases List.mem_append.mp hl with hl | hl
    · exact hnone l (List.mem_append_left _ hl)
    · rcases List.mem_cons.mp hl with rfl | hl
      · exact hfeed
      · exact hnone l (List.mem_append_right _ (List.mem_cons_of_mem _ hl))
  have hnamed : Line.ofChars line ≠ .topic none := by
    intro htells
    have hmem : line ∈ lines (serialize es).toList := by simp [lines_serialize, hlines]
    obtain ⟨topic, habsurd, -⟩ := eq_topicLine_of_mem_lines hmem htells
    exact absurd habsurd.symm (Option.some_ne_none topic)
  have hheader : topicBelow none ((header.toList :: above).map Line.ofChars) =
      topicBelow none (above.map Line.ofChars) := by
    rw [List.map_cons, show Line.ofChars header.toList = .unreadable by decide]
    rfl
  obtain ⟨kept, hkept, hall⟩ := exists_sublist_of_skipped hnamed
    (topicBelow none (above.map Line.ofChars)) (below.map Line.ofChars)
  refine ⟨entriesBelow none (above.map Line.ofChars) ++ kept, ?_, ?_⟩
  · rw [serialize, hlines, parse_ofLines hnone, List.map_append, entriesBelow_append]
    exact List.Sublist.append_left hkept _
  · rw [hheader, List.cons_append, parse_ofLines hnone', List.map_append, entriesBelow_append,
      List.map_cons, hdamage, entriesBelow_unreadable]
    exact List.rel_append (List.forall₂_same.mpr fun e _ => .inl rfl) hall

/-- What was stored as `s` is read as `e` from a text with a damaged line: with its key, its expiry
and its topic, unless the damaged line is the line of this topic; then it is read as one of the
topic that is in force above that line. -/
structure RecoveredFrom (above : List (List Char)) (line : List Char) (e s : CacheEntry) :
    Prop where
  key : e.key = s.key
  expiresAt : e.expiresAt = s.expiresAt.map Instant.carry
  topic : e.topic = s.topic ∨
    line = topicLine s.topic ∧ topicBelow none (above.map Line.ofChars) = some e.topic

/-- **A damaged line invents no entry**: what is read are some of the stored entries, but entries of
a topic whose line is damaged are read as entries of the topic above it. -/
theorem exists_stored_of_damaged {es : List CacheEntry} (hname : ∀ e ∈ es, e.key.keyName ≠ some "")
    {above below : List (List Char)} {line damage : List Char}
    (hlines : lines (serialize es).toList = above ++ line :: below) (habove : above ≠ [])
    (hfeed : '\n' ∉ damage) (hdamage : Line.ofChars damage = .unreadable) :
    ∃ stored : List CacheEntry, stored.Subperm es ∧
      List.Forall₂ (RecoveredFrom above line) (parse (ofLines (above ++ damage :: below)))
        stored := by
  obtain ⟨kept, hkept, hall⟩ := exists_sublist_of_damaged hlines habove hfeed hdamage
  obtain ⟨stored, hstored, rfl⟩ := exists_subperm_of_sublist hkept
  rw [List.forall₂_map_right_iff, List.forall₂_iff_zip] at hall
  refine ⟨stored, hstored, List.forall₂_iff_zip.mpr ⟨hall.1, fun {e s} hmem => ?_⟩⟩
  have hread : asRead s = ⟨s.topic, s.key, s.expiresAt.map Instant.carry⟩ :=
    asRead_of_keyName_ne (hname s (hstored.subset (List.of_mem_zip hmem).2))
  have hreads := hall.2 hmem
  rw [hread] at hreads
  rcases hreads with rfl | ⟨htells, hforce, he⟩
  · exact ⟨rfl, rfl, .inl rfl⟩
  · have hline : line ∈ lines (serialize es).toList := by simp [hlines]
    obtain ⟨topic, htopic, hnamed⟩ := eq_topicLine_of_mem_lines hline htells
    obtain rfl := Option.some.inj htopic
    rw [he]
    exact ⟨rfl, rfl, .inr ⟨hnamed, hforce⟩⟩

/-- A key of each of two topics. -/
def twoTopics : List CacheEntry :=
  [⟨"a", ⟨1, none, "QQ=="⟩, none⟩, ⟨"b", ⟨1, none, "Qg=="⟩, none⟩]

theorem lines_twoTopics :
    lines (serialize twoTopics).toList =
      [header.toList, topicLine "a", "1\t\t\tQQ==".toList] ++
        topicLine "b" :: ["1\t\t\tQg==".toList] := by
  have harranged : arrange twoTopics = twoTopics := by
    rw [arrange, List.mergeSort_of_pairwise (by decide)]
    decide
  rw [lines_serialize, harranged]
  decide

/-- When the second topic line is damaged, both keys are read as keys of the first topic. -/
theorem parse_damaged_twoTopics :
    parse (ofLines ([header.toList, topicLine "a", "1\t\t\tQQ==".toList] ++
      "topic\tb\tx".toList :: ["1\t\t\tQg==".toList])) =
        [⟨"a", ⟨1, none, "QQ=="⟩, none⟩, ⟨"a", ⟨1, none, "Qg=="⟩, none⟩] := by
  decide +kernel

/-- The second of these keys was stored for the topic of the damaged line. -/
theorem exists_stored_of_damaged_twoTopics :
    (∀ e ∈ twoTopics, e.key.keyName ≠ some "") ∧
      Line.ofChars "topic\tb\tx".toList = .unreadable ∧
      ∃ stored : List CacheEntry, stored.Subperm twoTopics ∧
        List.Forall₂
          (RecoveredFrom [header.toList, topicLine "a", "1\t\t\tQQ==".toList] (topicLine "b"))
          [⟨"a", ⟨1, none, "QQ=="⟩, none⟩, ⟨"a", ⟨1, none, "Qg=="⟩, none⟩] stored := by
  have hname : ∀ e ∈ twoTopics, e.key.keyName ≠ some "" := by decide
  have hdamage : Line.ofChars "topic\tb\tx".toList = .unreadable := by decide
  have hdamaged := exists_stored_of_damaged hname lines_twoTopics (by decide) (by decide) hdamage
  rw [parse_damaged_twoTopics] at hdamaged
  exact ⟨hname, hdamage, hdamaged⟩

/-- A damaged line can give an entry that was not stored: a key of another topic. -/
theorem not_forall_mem_of_damaged :
    ¬ ∀ (es : List CacheEntry) (above below : List (List Char)) (line damage : List Char),
      (∀ e ∈ es, (∀ t ∈ e.expiresAt, t.HasFourDigitYear) ∧ e.key.keyName ≠ some "") →
      lines (serialize es).toList = above ++ line :: below → above ≠ [] → '\n' ∉ damage →
      Line.ofChars damage = .unreadable →
      ∀ e ∈ parse (ofLines (above ++ damage :: below)), e ∈ es := by
  intro h
  have hmem := h twoTopics _ _ _ "topic\tb\tx".toList (by decide) lines_twoTopics (by decide)
    (by decide) (by decide)
  rw [parse_damaged_twoTopics] at hmem
  exact absurd hmem (by decide)

end TopicCipher.KeyCache
