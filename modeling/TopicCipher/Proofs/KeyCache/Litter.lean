import Mathlib.Logic.Basic
import TopicCipher.Proofs.KeyCache.Text

/-!
# Lines that say nothing

Below the header, a line that is no topic line does nothing but add its entry, if it says one.  It
leaves the topic in force alone, so what stands above and below it is read as if it was not there.
Damage to such a line therefore costs its entry and no other one, in every text and not only in
texts that a cache has written; and lines that say nothing may be strewn over a text at will.

A text is taken apart at its line feeds here.  The rows that this gives are not quite its lines: a
row may end in a carriage return that its line has lost, and a row that is empty is no line when it
is the last one.  Neither makes a difference below a heading (`parse_of_rows`).

* `parse_of_rows`: what a text says is what its rows say below the heading.
* `entriesBelow_cons_of_ne_topic`: a line that is no topic line adds its entry and nothing more.
* `Littered`: the same lines, with others strewn in that say nothing.
* `damage_costs_one_entry`: what is read when a line is replaced by one that says nothing, and when
  such lines are strewn in.
-/

namespace TopicCipher.KeyCache

/-! ## Rows of a text -/

/-- What stands between the line feeds of a text. -/
def rows (text : String) : List (List Char) := text.toList.splitOn '\n'

/-- The text of some rows. -/
def ofRows (rs : List (List Char)) : String := String.ofList (['\n'].intercalate rs)

theorem rows_ofRows {rs : List (List Char)} (hne : rs ≠ []) (hfeed : ∀ row ∈ rs, '\n' ∉ row) :
    rows (ofRows rs) = rs := by
  rw [rows, ofRows, String.toList_ofList, List.splitOn_intercalate '\n' hfeed hne]

theorem lineFeed_notMem_of_mem_rows {text : String} {row : List Char} (h : row ∈ rows text) :
    '\n' ∉ row :=
  fun hfeed => (mem_and_ne_of_mem_splitOn h _ hfeed).2 rfl

variable {heading rest : List (List Char)} {text : String}

/-- Closing rows changes nothing of what they say. -/
theorem entriesBelow_closeLines (topic : Option String) (rs : List (List Char)) :
    entriesBelow topic ((closeLines rs).map Line.ofChars) =
      entriesBelow topic (rs.map Line.ofChars) := by
  induction rs generalizing topic with
  | nil => rfl
  | cons row rs ih =>
    rcases eq_or_ne rs [] with rfl | hne
    · -- the last row is left out if it is empty, and then it said nothing
      rw [closeLines]
      split
      next hempty =>
        rw [hempty, List.map_cons, ofChars_of_blank (List.forall_mem_nil _),
          entriesBelow_unreadable]
      next => rfl
    · rw [closeLines_cons hne, List.map_cons, List.map_cons, ofChars_dropReturn,
        entriesBelow_cons, ih, ← entriesBelow_cons]

/-- A heading is still one when its rows are closed. -/
theorem IsHeading.exists_closeLines_eq (h : IsHeading heading) (rest : List (List Char)) :
    ∃ closed, IsHeading closed ∧ closeLines (heading ++ rest) = closed ++ closeLines rest := by
  induction h with
  | @header row hrow =>
    rcases eq_or_ne rest [] with rfl | hne
    · refine ⟨[row], .header hrow, ?_⟩
      -- the header is not left out, since it is not empty
      have hne : row ≠ [] := by
        rintro rfl
        exact absurd hrow (by decide)
      show (if row = [] then [] else [row]) = [row]
      rw [if_neg hne]
    · refine ⟨[dropReturn row], .header (by rw [dropEndWhile_dropReturn (by decide), hrow]), ?_⟩
      rw [List.singleton_append, List.singleton_append, closeLines_cons hne]
  | @blank row tail hrow htail ih =>
    obtain ⟨closed, hclosed, hclose⟩ := ih
    refine ⟨dropReturn row :: closed,
      .blank (fun c hc => hrow c (mem_of_mem_dropReturn hc)) hclosed, ?_⟩
    rw [List.cons_append,
      closeLines_cons (List.append_ne_nil_of_left_ne_nil htail.ne_nil _), hclose, List.cons_append]

/-- **A text says what its rows below the heading say.** -/
theorem parse_of_rows (h : IsHeading heading) (hrows : rows text = heading ++ rest) :
    parse text = entriesBelow none (rest.map Line.ofChars) := by
  obtain ⟨closed, hclosed, hclose⟩ := h.exists_closeLines_eq rest
  have hlines : lines text.toList = closed ++ closeLines rest := by
    rw [← hclose, ← hrows]
    rfl
  rw [parse_of_lines hclosed hlines, entriesBelow_closeLines]

/-! ## What a line adds -/

/-- The entry that a line adds below a topic: the one that it says, if it says one and a topic is in
force. -/
def added? (topic : Option String) (line : List Char) : Option CacheEntry :=
  match Line.ofChars line with
  | .entry key expiresAt => topic.map (⟨·, key, expiresAt⟩)
  | _ => none

/-- **A line that is no topic line adds its entry**, and what is below it is read as without it. -/
theorem entriesBelow_cons_of_ne_topic {line : List Char}
    (hline : ∀ name, Line.ofChars line ≠ .topic name) (topic : Option String) (below : List Line) :
    entriesBelow topic (Line.ofChars line :: below) =
      (added? topic line).toList ++ entriesBelow topic below := by
  unfold added?
  cases hsaid : Line.ofChars line with
  | topic name => exact absurd hsaid (hline name)
  | unreadable => cases topic <;> rfl
  | entry key expiresAt => cases topic <;> rfl

/-- The lines of the second list are those of the first one, with others strewn in that say
nothing. -/
inductive Littered : List (List Char) → List (List Char) → Prop where
  | nil : Littered [] []
  | line {ls ls' : List (List Char)} (line : List Char) : Littered ls ls' →
      Littered (line :: ls) (line :: ls')
  | litter {ls ls' : List (List Char)} {line : List Char}
      (hline : Line.ofChars line = .unreadable ∨ ∀ c ∈ line, Text.isBlank c = true) :
      Littered ls ls' → Littered ls (line :: ls')

theorem Littered.entriesBelow_eq {ls ls' : List (List Char)} (h : Littered ls ls')
    (topic : Option String) :
    entriesBelow topic (ls'.map Line.ofChars) = entriesBelow topic (ls.map Line.ofChars) := by
  induction h generalizing topic with
  | nil => rfl
  | line line _ ih => rw [List.map_cons, List.map_cons, entriesBelow_cons, ih, ← entriesBelow_cons]
  | litter hline _ ih =>
    have hunreadable := hline.elim id ofChars_of_blank
    rw [List.map_cons, hunreadable, entriesBelow_unreadable, ih]

/-! ## Damage -/

/-- **Damage to a line costs the entry of this line**, whatever the text is, as long as the line
stands below the header and is no topic line.  What is read above it and below it stays the same.
Lines that say nothing can be strewn in below the header, and the same is read. -/
theorem damage_costs_one_entry :
    (∀ {text : String} {heading above below : List (List Char)} {line damage : List Char},
      IsHeading heading → rows text = heading ++ above ++ line :: below →
      (∀ name, Line.ofChars line ≠ .topic name) → '\n' ∉ damage →
      Line.ofChars damage = .unreadable →
        ∃ rest, parse text = parse (ofRows (heading ++ above)) ++
            (added? (topicBelow none (above.map Line.ofChars)) line).toList ++ rest ∧
          parse (ofRows (heading ++ above ++ damage :: below)) =
            parse (ofRows (heading ++ above)) ++ rest) ∧
    ∀ {text littered : String} {heading rest rest' : List (List Char)},
      IsHeading heading → lines text.toList = heading ++ rest →
      lines littered.toList = heading ++ rest' → Littered rest rest' →
        parse littered = parse text := by
  constructor
  · intro text heading above below line damage hheading hrows hline hfeed hdamage
    have hnone : ∀ row ∈ heading ++ above ++ line :: below, '\n' ∉ row := by
      rw [← hrows]
      exact fun row hrow => lineFeed_notMem_of_mem_rows hrow
    rw [List.forall_mem_append, List.forall_mem_cons] at hnone
    obtain ⟨habove, -, hbelow⟩ := hnone
    have hkept : rows (ofRows (heading ++ above)) = heading ++ above :=
      rows_ofRows (List.append_ne_nil_of_left_ne_nil hheading.ne_nil _) habove
    have hdamaged : rows (ofRows (heading ++ above ++ damage :: below)) =
        heading ++ above ++ damage :: below :=
      rows_ofRows (by simp) (List.forall_mem_append.mpr
        ⟨habove, List.forall_mem_cons.mpr ⟨hfeed, hbelow⟩⟩)
    rw [List.append_assoc] at hrows
    have hsame := hdamaged.trans (List.append_assoc ..)
    refine ⟨entriesBelow (topicBelow none (above.map Line.ofChars))
      (below.map Line.ofChars), ?_, ?_⟩
    · rw [parse_of_rows hheading hrows, parse_of_rows hheading hkept, List.map_append,
        entriesBelow_append, List.map_cons, entriesBelow_cons_of_ne_topic hline, List.append_assoc]
    · rw [parse_of_rows hheading hsame, parse_of_rows hheading hkept, List.map_append,
        entriesBelow_append, List.map_cons, hdamage, entriesBelow_unreadable]
  · intro text littered heading rest rest' hheading hlines hlines' hlitter
    rw [parse_of_lines hheading hlines, parse_of_lines hheading hlines', hlitter.entriesBelow_eq]

/-- A blank row and the header, with carriage returns. -/
def returnHeading : List (List Char) := [" \r".toList, "topicseal-key-cache v1\r".toList]

/-- The row of a topic. -/
def ordersRow : List Char := "topic\torders\r".toList

/-- The row of its fourth key. -/
def fourthRow : List Char := "4\t\tvalue\tZ29vZA==\r".toList

/-- The row of its second key. -/
def secondRow : List Char := "2\t\t\tb2xk".toList

/-- The row of the fourth key when the key itself is cut off. -/
def cutRow : List Char := "4\t\tvalue\t\r".toList

/-- Both keys below their topic. -/
def ordersText : String := ofRows (returnHeading ++ [ordersRow] ++ [fourthRow, secondRow])

/-- When the fourth key is cut off, the second one is still read, and both are read when a line that
says nothing is put at the end. -/
theorem damage_costs_one_entry_cut :
    IsHeading returnHeading ∧ Line.ofChars cutRow = .unreadable ∧
      parse ordersText =
        [⟨"orders", ⟨4, some "value", "Z29vZA=="⟩, none⟩, ⟨"orders", ⟨2, none, "b2xk"⟩, none⟩] ∧
      parse (ofRows (returnHeading ++ [ordersRow] ++ [cutRow, secondRow])) =
        [⟨"orders", ⟨2, none, "b2xk"⟩, none⟩] ∧
      parse (ofRows (returnHeading ++ [ordersRow] ++ [fourthRow, secondRow, "3\t".toList])) =
        parse ordersText := by
  have hheading : IsHeading returnHeading :=
    .blank (List.all_eq_true.mp (by decide)) (.header (by decide))
  have hclosed : IsHeading [" ".toList, header.toList] :=
    .blank (List.all_eq_true.mp (by decide)) (.header (by decide))
  have hrows : rows ordersText = returnHeading ++ [ordersRow] ++ [fourthRow, secondRow] :=
    rows_ofRows (by decide) (by decide)
  have hdamage : Line.ofChars cutRow = .unreadable := by decide
  have hline : Line.ofChars fourthRow = .entry ⟨4, some "value", "Z29vZA=="⟩ none := by decide
  have hadded : added? (topicBelow none ([ordersRow].map Line.ofChars)) fourthRow =
      some ⟨"orders", ⟨4, some "value", "Z29vZA=="⟩, none⟩ := by decide
  have hread : parse ordersText =
      [⟨"orders", ⟨4, some "value", "Z29vZA=="⟩, none⟩, ⟨"orders", ⟨2, none, "b2xk"⟩, none⟩] := by
    decide +kernel
  have habove : parse (ofRows (returnHeading ++ [ordersRow])) = [] := by decide +kernel
  have hlitter : Littered [dropReturn ordersRow, dropReturn fourthRow, secondRow]
      [dropReturn ordersRow, dropReturn fourthRow, secondRow, "3\t".toList] :=
    .line _ (.line _ (.line _ (.litter (.inl (by decide)) .nil)))
  obtain ⟨hdamaged, hlittered⟩ := damage_costs_one_entry
  obtain ⟨rest, htext, hcut⟩ := hdamaged hheading hrows
    (fun name => by rw [hline]; exact Line.noConfusion) (by decide) hdamage
  rw [hread, habove, hadded] at htext
  obtain rfl := (List.cons.inj htext).2
  rw [habove] at hcut
  exact ⟨hheading, hdamage, hread, hcut, hlittered hclosed (by decide) (by decide) hlitter⟩

end TopicCipher.KeyCache
