import Mathlib.Algebra.Order.Ring.Nat
import Mathlib.Data.List.Infix
import Mathlib.Data.Nat.SuccPred
import Mathlib.Tactic.ByContra
import TopicCipher.Proofs.Topic.Precedence

/-!
# Filling in templates

A template consists of characters and of slots for the team and for the topic.  To fill it in
literally is to leave the characters alone and to write a value into every slot, so that what is
written is never read.  The program reads twice instead: it replaces the team's placeholder in the
template, and then the topic's placeholder in the result.

As long as no two placeholders of the template overlap, the first reading finds the slots of the
team and nothing else, because a template holds no values yet.  The second one reads the team as
well.  It fills in the template literally exactly if it finds the topic's placeholder where the
template has it; but a team may spell the placeholder, or complete one together with the characters
around it.  A team that has no percent sign and is no part of the word `TOPICNAME` can do neither.
A topic is written last, and never read.

* `Part`, `fill`, `read`: templates in parts.
* `marks_read`: if placeholders do not overlap, the parts show all of them.
* `replace_fill`, `unmixed_of_replace`: a placeholder is replaced in its slots alone exactly if it
  begins in no other part.
* `harmless_of_plain`: teams that are never read for a placeholder.
* `fillsIn_of_apart`: the path that a resolver makes of a template.
-/

namespace TopicCipher

namespace Template

/-! ## Parts of a template -/

/-- What a template leaves open. -/
inductive Slot where
  | team
  | topic
  deriving DecidableEq

/-- How a slot is spelled. -/
def Slot.placeholder : Slot → List Char
  | .team => teamPlaceholder.toList
  | .topic => topicPlaceholder.toList

/-- The word between the percent signs. -/
def Slot.word : Slot → List Char
  | .team => "TEAMNAME".toList
  | .topic => "TOPICNAME".toList

/-- A character of a template, or a slot. -/
inductive Part where
  | char (c : Char)
  | slot (s : Slot)
  deriving DecidableEq

/-- The text of a part, with values for slots. -/
def Part.text (value : Slot → List Char) : Part → List Char
  | .char c => [c]
  | .slot s => value s

/-- The text of some parts, with values for slots. -/
def fill (value : Slot → List Char) (parts : List Part) : List Char := parts.flatMap (·.text value)

/-- The slot whose placeholder a text begins with. -/
def slotAt? (slots : List Slot) (text : List Char) : Option Slot :=
  slots.find? fun s => s.placeholder.isPrefixOf text

/-- The parts of a text after its first `skip` characters, which belong to a slot that is already
read. -/
def readFrom (slots : List Slot) : (skip : Nat) → List Char → List Part
  | _, [] => []
  | skip + 1, _ :: cs => readFrom slots skip cs
  | 0, c :: cs =>
    match slotAt? slots (c :: cs) with
    | some s => .slot s :: readFrom slots (s.placeholder.length - 1) cs
    | none => .char c :: readFrom slots 0 cs

/-- The parts of a text, read from the left for some slots. -/
def read (slots : List Slot) (text : List Char) : List Part := readFrom slots 0 text

variable {value : Slot → List Char} {s o : Slot} {p : Part} {parts rest : List Part}

theorem Slot.placeholder_eq (s : Slot) : s.placeholder = '%' :: (s.word ++ ['%']) := by
  cases s <;> decide

theorem Slot.percent_notMem_word (s : Slot) : '%' ∉ s.word := by
  cases s <;> decide

theorem Slot.placeholder_ne_nil (s : Slot) : s.placeholder ≠ [] := by
  rw [s.placeholder_eq]
  exact List.cons_ne_nil _ _

/-- No text begins with two different placeholders. -/
theorem Slot.eq_of_prefix {text : List Char} (hs : s.placeholder <+: text)
    (ho : o.placeholder <+: text) : s = o := by
  have hteam : ¬ Slot.team.placeholder <+: Slot.topic.placeholder := by decide
  cases s <;> cases o
  · rfl
  · exact absurd (List.prefix_of_prefix_length_le hs ho (by decide)) hteam
  · exact absurd (List.prefix_of_prefix_length_le ho hs (by decide)) hteam
  · rfl

theorem Part.text_placeholder_ne_nil (p : Part) : p.text Slot.placeholder ≠ [] := by
  cases p with
  | char c => exact List.cons_ne_nil c []
  | slot s => exact s.placeholder_ne_nil

@[simp] theorem fill_nil : fill value [] = [] := rfl

@[simp] theorem fill_cons : fill value (p :: rest) = p.text value ++ fill value rest := rfl

theorem fill_append (parts others : List Part) :
    fill value (parts ++ others) = fill value parts ++ fill value others :=
  List.flatMap_append

/-- A value for a slot that does not occur makes no difference. -/
theorem text_update_of_ne {v : List Char} (h : p ≠ .slot s) :
    p.text (Function.update value s v) = p.text value := by
  cases p with
  | char c => rfl
  | slot o =>
    have hne : o ≠ s := fun heq => h (by rw [heq])
    rw [Part.text, Part.text, Function.update_of_ne hne]

theorem fill_update_of_notMem {v : List Char} (h : .slot s ∉ parts) :
    fill (Function.update value s v) parts = fill value parts := by
  induction parts with
  | nil => rfl
  | cons p rest ih =>
    rw [List.mem_cons, not_or] at h
    rw [fill_cons, fill_cons, ih h.2, text_update_of_ne (Ne.symm h.1)]

/-! ## Reading -/

theorem slotAt?_eq_none_iff {slots : List Slot} {text : List Char} :
    slotAt? slots text = none ↔ ∀ s ∈ slots, ¬ s.placeholder <+: text := by
  simp [slotAt?, List.find?_eq_none]

theorem mem_and_prefix_of_slotAt? {slots : List Slot} {text : List Char}
    (h : slotAt? slots text = some s) : s ∈ slots ∧ s.placeholder <+: text := by
  rw [slotAt?] at h
  have hprefix : s.placeholder.isPrefixOf text = true := by simpa using List.find?_some h
  exact ⟨List.mem_of_find?_eq_some h, List.isPrefixOf_iff_prefix.mp hprefix⟩

/-- The parts of a text are read one after the other. -/
inductive Reads (slots : List Slot) : List Part → List Char → Prop where
  | nil : Reads slots [] []
  | char {c : Char} {cs : List Char} {rest : List Part}
      (hnone : ∀ s ∈ slots, ¬ s.placeholder <+: c :: cs)
      (hrest : Reads slots rest cs) : Reads slots (.char c :: rest) (c :: cs)
  | slot {s : Slot} {cs : List Char} {rest : List Part} (hs : s ∈ slots)
      (hrest : Reads slots rest cs) :
      Reads slots (.slot s :: rest) (s.placeholder ++ cs)

theorem readFrom_eq_read_drop (slots : List Slot) (skip : Nat) (text : List Char) :
    readFrom slots skip text = read slots (text.drop skip) := by
  induction text generalizing skip with
  | nil => cases skip <;> rfl
  | cons c cs ih =>
    cases skip with
    | zero => rfl
    | succ skip => exact ih skip

theorem reads_read (slots : List Slot) (text : List Char) : Reads slots (read slots text) text := by
  induction hlength : text.length using Nat.strong_induction_on generalizing text with
  | _ n ih =>
    cases text with
    | nil => exact .nil
    | cons c cs =>
      rw [read, readFrom]
      rcases hslot : slotAt? slots (c :: cs) with _ | s
      · exact .char (slotAt?_eq_none_iff.mp hslot) (ih cs.length (by rw [← hlength]; simp) cs rfl)
      · obtain ⟨hs, after, hafter⟩ := mem_and_prefix_of_slotAt? hslot
        have hcs : cs = s.word ++ ['%'] ++ after := by
          rw [s.placeholder_eq] at hafter
          exact (List.cons.inj hafter).2.symm
        have hskip : s.placeholder.length - 1 = (s.word ++ ['%']).length := by
          rw [s.placeholder_eq]
          rfl
        rw [← hafter]
        simp only [readFrom_eq_read_drop]
        rw [hskip, hcs, List.drop_left]
        refine .slot hs (ih after.length ?_ after rfl)
        rw [← hlength, hcs]
        simp only [List.length_cons, List.length_append]
        omega

/-- What was read spells the text. -/
theorem Reads.fill_eq {slots : List Slot} {text : List Char} (h : Reads slots parts text) :
    fill Slot.placeholder parts = text := by
  induction h with
  | nil => rfl
  | char _ _ ih => exact congrArg _ ih
  | slot _ _ ih => exact congrArg _ ih

/-! ## Placeholders that do not overlap -/

/-- A placeholder of the template ends before another one begins. -/
def Apart (template : List Char) : Prop :=
  ∀ s o : Slot, ∀ i j, s.placeholder <+: template.drop i →
    o.placeholder <+: template.drop j → i < j → i + s.placeholder.length ≤ j

/-- The parts of a template, if every placeholder in it is a part. -/
structure Marks (template : List Char) (parts : List Part) : Prop where
  spelled : fill Slot.placeholder parts = template
  marked (s : Slot) (i : Nat) : s.placeholder <+: template.drop i →
    ∃ before after, parts = before ++ .slot s :: after ∧ (fill Slot.placeholder before).length = i

/-- Placeholders begin before the end of the template. -/
theorem lt_length_of_prefix_drop {text : List Char} {i : Nat} (h : s.placeholder <+: text.drop i) :
    i < text.length := by
  have hpos := List.length_pos_of_ne_nil s.placeholder_ne_nil
  have hle := h.length_le
  rw [List.length_drop] at hle
  omega

set_option synthInstance.maxSize 400 in
instance (template : List Char) : Decidable (Apart template) :=
  decidable_of_iff
    (∀ s ∈ [Slot.team, Slot.topic], ∀ o ∈ [Slot.team, Slot.topic], ∀ i < template.length,
      ∀ j < template.length, s.placeholder <+: template.drop i →
        o.placeholder <+: template.drop j → i < j → i + s.placeholder.length ≤ j)
    ⟨fun h s o i j hi hj => h s (by cases s <;> simp) o (by cases o <;> simp) i
        (lt_length_of_prefix_drop hi) j (lt_length_of_prefix_drop hj) hi hj,
      fun h s _ o _ i _ j _ => h s o i j⟩

theorem Apart.drop {template : List Char} (h : Apart template) (n : Nat) :
    Apart (template.drop n) := by
  intro s o i j hi hj hlt
  rw [List.drop_drop] at hi hj
  have := h s o (n + i) (n + j) hi hj (by omega)
  omega

/-- **If placeholders do not overlap, the parts show all of them.** -/
theorem marks_read {template : List Char} (h : Apart template) :
    Marks template (read [.team, .topic] template) := by
  have hreads := reads_read [.team, .topic] template
  refine ⟨hreads.fill_eq, ?_⟩
  generalize read [.team, .topic] template = parts at hreads
  induction hreads with
  | nil =>
    intro s i hi
    rw [List.drop_nil, List.prefix_nil] at hi
    exact absurd hi s.placeholder_ne_nil
  | @char c cs rest hnone _ ih =>
    intro s i hi
    cases i with
    | zero => exact absurd hi (hnone s (by cases s <;> simp))
    | succ i =>
      obtain ⟨before, after, rfl, hlength⟩ := ih (h.drop 1) s i hi
      exact ⟨.char c :: before, after, rfl, by simp [Part.text, hlength]⟩
  | @slot o cs rest _ _ ih =>
    intro s i hi
    rcases Nat.eq_zero_or_pos i with rfl | hpos
    · obtain rfl := Slot.eq_of_prefix hi (List.prefix_append o.placeholder cs)
      exact ⟨[], rest, rfl, rfl⟩
    · have hend := h o s 0 i (List.prefix_append o.placeholder cs) hi hpos
      obtain ⟨j, rfl⟩ : ∃ j, i = o.placeholder.length + j := ⟨i - o.placeholder.length, by omega⟩
      have happart : Apart cs := by simpa using h.drop o.placeholder.length
      rw [List.drop_append, List.drop_eq_nil_of_le (by omega), List.nil_append,
        Nat.add_sub_cancel_left] at hi
      obtain ⟨before, after, rfl, hlength⟩ := ih happart s j hi
      exact ⟨.slot o :: before, after, rfl, by simp [Part.text, hlength]⟩

/-- A part begins where the parts before it end. -/
theorem eq_of_length_fill {q : Part} {before others after : List Part}
    (h : before ++ p :: rest = others ++ q :: after)
    (hle : (fill Slot.placeholder before).length ≤ (fill Slot.placeholder others).length)
    (hlt : (fill Slot.placeholder others).length < (fill Slot.placeholder (before ++ [p])).length) :
    p = q := by
  induction before generalizing others with
  | nil =>
    cases others with
    | nil => exact (List.cons.inj h).1
    | cons b others =>
      obtain ⟨rfl, -⟩ := List.cons.inj h
      simp at hlt
  | cons b before ih =>
    have hb := List.length_pos_of_ne_nil b.text_placeholder_ne_nil
    cases others with
    | nil =>
      simp only [fill_cons, fill_nil, List.length_append, List.length_nil] at hle
      omega
    | cons b' others =>
      obtain ⟨rfl, htail⟩ := List.cons.inj h
      simp only [List.cons_append, fill_cons, List.length_append] at hle hlt
      exact ih htail (by omega) (by omega)

/-! ## Replacing placeholders -/

/-- In the text of some parts, the placeholder of a slot begins in no part but the slot. -/
def Unmixed (value : Slot → List Char) (s : Slot) : List Part → Prop
  | [] => True
  | p :: rest =>
    (p = .slot s ∨ ∀ cs, cs ≠ [] → cs <:+ p.text value →
      ¬ s.placeholder <+: cs ++ fill value rest) ∧ Unmixed value s rest

theorem unmixed_congr {other : Slot → List Char} (h : ∀ p ∈ parts, p.text value = p.text other) :
    Unmixed value s parts ↔ Unmixed other s parts := by
  induction parts with
  | nil => rfl
  | cons p rest ih =>
    rw [List.forall_mem_cons] at h
    have hfill : fill value rest = fill other rest := List.flatMap_congr h.2
    rw [Unmixed, Unmixed, h.1, hfill, ih h.2]

/-- In a template all of whose placeholders are parts, no placeholder begins in another part. -/
theorem Marks.unmixed {template : List Char} (h : Marks template parts) (s : Slot) :
    Unmixed Slot.placeholder s parts := by
  suffices hrest : ∀ before rest, parts = before ++ rest → Unmixed Slot.placeholder s rest from
    hrest [] parts rfl
  intro before rest hparts
  induction rest generalizing before with
  | nil => trivial
  | cons p rest ih =>
    refine ⟨?_, ih (before ++ [p]) (by rw [hparts, List.append_cons])⟩
    rw [or_iff_not_imp_left]
    rintro hne cs hcs ⟨own, hown⟩ hprefix
    have hdrop : template.drop (fill Slot.placeholder before ++ own).length =
        cs ++ fill Slot.placeholder rest := by
      rw [← h.spelled, hparts, fill_append, fill_cons, ← hown, List.append_assoc,
        ← List.append_assoc, List.drop_left]
    obtain ⟨others, after, hsplit, hlength⟩ := h.marked s _ (hdrop.symm ▸ hprefix)
    have hpos := List.length_pos_of_ne_nil hcs
    have htext := congrArg List.length hown
    rw [List.length_append] at hlength htext
    refine hne (eq_of_length_fill (hparts.symm.trans hsplit) (by omega) ?_)
    rw [fill_append, List.length_append, fill_cons, fill_nil, List.append_nil]
    omega

/-- What is read for one slot has its placeholder in no other part. -/
theorem Reads.unmixed {text : List Char} (h : Reads [s] parts text) :
    Unmixed Slot.placeholder s parts := by
  induction h with
  | nil => trivial
  | char hnone hrest ih =>
    refine ⟨.inr fun cs hcs hsuffix => ?_, ih⟩
    rcases List.suffix_cons_iff.mp hsuffix with rfl | hempty
    · rw [List.singleton_append, hrest.fill_eq]
      exact hnone s List.mem_cons_self
    · exact absurd (List.suffix_nil.mp hempty) hcs
  | slot hs _ ih => exact ⟨.inl (by rw [List.mem_singleton.mp hs]), ih⟩

variable {pattern v w t : List Char}

theorem replaceFrom_eq_replace_drop (pattern v : List Char) (skip : Nat) (text : List Char) :
    replaceFrom pattern v skip text = replace pattern v (text.drop skip) := by
  induction text generalizing skip with
  | nil => cases skip <;> rfl
  | cons c cs ih =>
    cases skip with
    | zero => rfl
    | succ skip => exact ih skip

/-- At an occurrence of the pattern, the value is written. -/
theorem replace_pattern_append (hpattern : pattern ≠ []) (v t : List Char) :
    replace pattern v (pattern ++ t) = v ++ replace pattern v t := by
  obtain ⟨c, cs, rfl⟩ := List.exists_cons_of_ne_nil hpattern
  rw [replace, List.cons_append, replaceFrom, if_pos, replaceFrom_eq_replace_drop]
  · simp
  · simp

/-- At other characters, the character is written. -/
theorem replace_cons_of_not {c : Char} (h : ¬ pattern <+: c :: t) :
    replace pattern v (c :: t) = c :: replace pattern v t := by
  rw [replace, replaceFrom, if_neg (by rwa [List.isPrefixOf_iff_prefix])]
  rfl

/-- Text in which the pattern begins nowhere is left alone. -/
theorem replace_append_of_forall_not (h : ∀ cs, cs ≠ [] → cs <:+ w → ¬ pattern <+: cs ++ t) :
    replace pattern v (w ++ t) = w ++ replace pattern v t := by
  induction w with
  | nil => rfl
  | cons c w ih =>
    have hc : ¬ pattern <+: c :: (w ++ t) := h (c :: w) (List.cons_ne_nil c w) List.suffix_rfl
    have hw := ih fun cs hcs hsuffix => h cs hcs (hsuffix.trans (List.suffix_cons c w))
    rw [List.cons_append, replace_cons_of_not hc, hw]
    rfl

/-- Only such text is left alone, if the value begins differently from the pattern. -/
theorem forall_not_of_replace_append {a d : Char} {u : List Char} (hne : d ≠ a)
    (h : replace (a :: pattern) (d :: v) (w ++ t) = w ++ u) :
    ∀ cs, cs ≠ [] → cs <:+ w → ¬ a :: pattern <+: cs ++ t := by
  induction w with
  | nil =>
    intro cs hcs hsuffix
    exact absurd (List.suffix_nil.mp hsuffix) hcs
  | cons c w ih =>
    have hc : ¬ a :: pattern <+: c :: (w ++ t) := by
      rintro ⟨after, hafter⟩
      rw [List.cons_append, ← hafter, replace_pattern_append (List.cons_ne_nil a pattern)] at h
      have hdc : d = c := (List.cons.inj h).1
      have hac : a = c := (List.cons.inj hafter).1
      exact hne (hdc.trans hac.symm)
    rw [List.cons_append, replace_cons_of_not hc] at h
    intro cs hcs hsuffix
    rcases List.suffix_cons_iff.mp hsuffix with rfl | hsuffix
    · exact hc
    · exact ih (List.cons.inj h).2 cs hcs hsuffix

/-- **A placeholder is replaced in its slots alone** if it begins in no other part. -/
theorem replace_fill (hvalue : value s = s.placeholder) (h : Unmixed value s parts)
    (v : List Char) :
    replace s.placeholder v (fill value parts) = fill (Function.update value s v) parts := by
  induction parts with
  | nil => rfl
  | cons p rest ih =>
    obtain ⟨hp, hrest⟩ := h
    rw [fill_cons, fill_cons, ← ih hrest]
    by_cases hslot : p = .slot s
    · subst hslot
      rw [Part.text, Part.text, hvalue, Function.update_self,
        replace_pattern_append s.placeholder_ne_nil]
    · rw [replace_append_of_forall_not (hp.resolve_left hslot), text_update_of_ne hslot]

/-- **Only then it is**, if the value does not begin with a percent sign. -/
theorem unmixed_of_replace (hvalue : value s = s.placeholder) {d : Char} (hd : d ≠ '%')
    (h : replace s.placeholder (d :: v) (fill value parts) =
      fill (Function.update value s (d :: v)) parts) : Unmixed value s parts := by
  induction parts with
  | nil => trivial
  | cons p rest ih =>
    rw [fill_cons, fill_cons] at h
    by_cases hslot : p = .slot s
    · subst hslot
      rw [Part.text, Part.text, hvalue, Function.update_self,
        replace_pattern_append s.placeholder_ne_nil] at h
      exact ⟨.inl rfl, ih (List.append_cancel_left h)⟩
    · rw [text_update_of_ne hslot] at h
      have hp : ∀ cs, cs ≠ [] → cs <:+ p.text value →
          ¬ s.placeholder <+: cs ++ fill value rest := by
        rw [s.placeholder_eq] at h ⊢
        exact forall_not_of_replace_append hd h
      rw [replace_append_of_forall_not hp] at h
      exact ⟨.inr hp, ih (List.append_cancel_left h)⟩

/-- So a value is written into what is read for its slot, whatever the text is. -/
theorem replace_eq_fill_read (s : Slot) (v text : List Char) :
    replace s.placeholder v text = fill (Function.update Slot.placeholder s v) (read [s] text) := by
  have hreads := reads_read [s] text
  rw [← replace_fill rfl hreads.unmixed v, hreads.fill_eq]

/-! ## Teams -/

/-- The values of the slots when the team is written and the topic is not. -/
def withTeam (name : String) : Slot → List Char :=
  Function.update Slot.placeholder .team name.toList

/-- The values of the slots when the topic is written and the team is not. -/
def withTopic (topic : String) : Slot → List Char :=
  Function.update Slot.placeholder .topic topic.toList

/-- The values of both slots. -/
def withBoth (name topic : String) : Slot → List Char
  | .team => name.toList
  | .topic => topic.toList

/-- The path of a template that is filled in literally. -/
def literal (parts : List Part) (name topic : String) : String :=
  String.ofList (fill (withBoth name topic) parts)

/-- With the team written into its slots, the topic's placeholder begins in no part but its own
slots. -/
def Harmless (name : String) (parts : List Part) : Prop := Unmixed (withTeam name) .topic parts

variable {name topic : String}

theorem withTeam_topic : withTeam name .topic = Slot.topic.placeholder :=
  Function.update_of_ne (by decide) _ _

theorem update_withTeam :
    Function.update (withTeam name) .topic topic.toList = withBoth name topic := by
  funext s
  cases s
  · exact (Function.update_of_ne (by decide) _ _).trans (Function.update_self _ _ _)
  · exact Function.update_self _ _ _

/-- Up to its next percent sign, the text with the team in it goes on as the template does, or it
has the whole team in it. -/
theorem prefix_or_infix (hname : '%' ∉ name.toList) {word : List Char} (hword : '%' ∉ word)
    (h : word ++ ['%'] <+: fill (withTeam name) parts) :
    word ++ ['%'] <+: fill Slot.placeholder parts ∨ name.toList <:+: word := by
  induction parts generalizing word with
  | nil => exact absurd (List.prefix_nil.mp h) (by simp)
  | cons p rest ih =>
    rw [fill_cons] at h ⊢
    cases p with
    | char c =>
      rw [Part.text, List.singleton_append] at h ⊢
      cases word with
      | nil =>
        exact .inl (List.cons_prefix_cons.mpr ⟨(List.cons_prefix_cons.mp h).1, List.nil_prefix⟩)
      | cons d word =>
        obtain ⟨rfl, htail⟩ := List.cons_prefix_cons.mp h
        rcases ih (fun hmem => hword (List.mem_cons_of_mem d hmem)) htail with hsame | hpart
        · exact .inl (List.cons_prefix_cons.mpr ⟨rfl, hsame⟩)
        · exact .inr (hpart.trans (List.suffix_cons d word).isInfix)
    | slot s =>
      cases s with
      | team =>
        right
        rw [Part.text, withTeam, Function.update_self] at h
        rcases List.prefix_or_prefix_of_prefix h (List.prefix_append name.toList _)
          with hlong | hshort
        · exact absurd (hlong.subset (by simp)) hname
        · rcases List.prefix_concat_iff.mp hshort with heq | hprefix
          · exact absurd (heq ▸ List.mem_append_right word (List.mem_singleton_self '%')) hname
          · exact hprefix.isInfix
      | topic =>
        rw [Part.text, withTeam_topic, Slot.placeholder_eq, List.cons_append] at h
        cases word with
        | nil =>
          left
          rw [Part.text, Slot.placeholder_eq]
          exact List.cons_prefix_cons.mpr ⟨rfl, List.nil_prefix⟩
        | cons d word =>
          exact absurd (List.mem_cons.mpr (.inl (List.cons_prefix_cons.mp h).1.symm)) hword

/-- **A team is harmless if it has no percent sign and is no part of the topic's word.**  It begins
no placeholder, and what it could complete is a word that it is a part of. -/
theorem harmless_of_plain (h : Unmixed Slot.placeholder .topic parts) (hname : '%' ∉ name.toList)
    (hnot : ¬ name.toList <:+: Slot.topic.word) : Harmless name parts := by
  induction parts with
  | nil => trivial
  | cons p rest ih =>
    obtain ⟨hp, hrest⟩ := h
    refine ⟨?_, ih hrest⟩
    rw [Slot.placeholder_eq] at hp ⊢
    cases p with
    | char c =>
      refine .inr fun cs hcs hsuffix hbegins => ?_
      rcases List.suffix_cons_iff.mp hsuffix with rfl | hempty
      · obtain ⟨rfl, htail⟩ := List.cons_prefix_cons.mp hbegins
        rcases prefix_or_infix hname Slot.topic.percent_notMem_word htail with hsame | hpart
        · exact hp.resolve_left (by simp) ['%'] hcs List.suffix_rfl
            (List.cons_prefix_cons.mpr ⟨rfl, hsame⟩)
        · exact hnot hpart
      · exact hcs (List.suffix_nil.mp hempty)
    | slot s =>
      cases s with
      | topic => exact .inl rfl
      | team =>
        refine .inr fun cs hcs hsuffix hbegins => hname ?_
        obtain ⟨c, cs, rfl⟩ := List.exists_cons_of_ne_nil hcs
        rw [(List.cons_prefix_cons.mp hbegins).1]
        rw [Part.text, withTeam, Function.update_self] at hsuffix
        exact hsuffix.subset List.mem_cons_self

/-- A team that is not asked for is harmless. -/
theorem harmless_of_notMem (h : Unmixed Slot.placeholder .topic parts)
    (hteam : .slot .team ∉ parts) :
    Harmless name parts := by
  refine (unmixed_congr fun p hp => ?_).mp h
  exact (text_update_of_ne fun heq => hteam (heq ▸ hp)).symm

/-! ## Paths -/

/-- A template asks for what its parts are slots of. -/
theorem Marks.infix_iff {template : List Char} (h : Marks template parts) :
    s.placeholder <:+: template ↔ .slot s ∈ parts := by
  constructor
  · rintro ⟨before, after, rfl⟩
    obtain ⟨others, rest, hparts, -⟩ := h.marked s before.length (by simp)
    rw [hparts]
    exact List.mem_append_cons_self
  · intro hmem
    obtain ⟨before, after, hparts⟩ := List.append_of_mem hmem
    refine ⟨fill Slot.placeholder before, fill Slot.placeholder after, ?_⟩
    rw [← h.spelled, hparts, fill_append, fill_cons, Part.text, List.append_assoc]

/-- The topic is written into what is read once the team is written. -/
theorem render?_of_marks {template : String} {team : Option String}
    (h : Marks template.toList parts) (hname : team = some name ∨ .slot .team ∉ parts) :
    render? template topic team =
      some (String.ofList (replace Slot.topic.placeholder topic.toList
        (fill (withTeam name) parts))) := by
  have hsame : Slot.team.placeholder <:+: template.toList ↔ .slot .team ∈ parts := h.infix_iff
  have hoccurs : occurs teamPlaceholder.toList template.toList = true ↔ .slot .team ∈ parts :=
    occurs_iff.trans hsame
  rw [render?]
  by_cases hasks : Part.slot .team ∈ parts
  · obtain rfl := hname.resolve_right (not_not.mpr hasks)
    have hteam := replace_fill rfl (h.unmixed .team) name.toList
    rw [h.spelled] at hteam
    rw [if_pos (hoccurs.mpr hasks), withTeam, ← hteam]
    rfl
  · rw [if_neg (mt hoccurs.mp hasks), withTeam, fill_update_of_notMem hasks, h.spelled]
    rfl

end Template

namespace TopicResolver

open Template

/-- The template that a resolver fills in for a topic, and the team that it has for the topic. -/
inductive Uses : TopicResolver → (topic template : String) → (team : Option String) → Prop where
  | single {mapping : SingleTopic} {topic : String} (h : mapping.speaksFor topic = true) :
      Uses (.single mapping) topic mapping.path none
  | multi {rules : List TopicRule} {topic template : String}
      (h : Rules.resolve rules topic TopicRule.pathSource = some (.template template)) :
      Uses (.multi rules) topic template (Rules.resolve rules topic (·.team))

variable {resolver : TopicResolver} {topic template : String} {team : Option String}

theorem Uses.path_eq (h : resolver.Uses topic template team) :
    resolver.path topic = render template topic team := by
  cases h with
  | single h => rw [TopicResolver.path, if_pos h]
  | multi h =>
    rw [TopicResolver.path, h]
    rfl

/-- What becomes of a template, for one topic. -/
structure FillsIn (resolver : TopicResolver) (topic template : String) (team : Option String)
    (parts : List Part) : Prop where
  /-- The parts show every placeholder. -/
  marks : Marks template.toList parts
  /-- Without a team, there is no path if the template asks for one. -/
  fault : .slot .team ∈ parts → team = none →
    resolver.path topic = .error (.templateWithoutTeam template topic)
  /-- The topic is written into what is read once the team is written, and is not read. -/
  path {name : String} : team = some name ∨ .slot .team ∉ parts →
    resolver.path topic = .ok (String.ofList <|
      fill (withTopic topic) (Template.read [.topic] (fill (withTeam name) parts)))
  /-- With a harmless team, the template is filled in literally. -/
  literal {name : String} : team = some name ∨ .slot .team ∉ parts → Harmless name parts →
    resolver.path topic = .ok (Template.literal parts name topic)
  /-- With no other team it is, for a topic that does not begin with a percent sign. -/
  harmless {name : String} : team = some name ∨ .slot .team ∉ parts →
    (∃ c ∈ topic.toList.head?, c ≠ '%') →
    resolver.path topic = .ok (Template.literal parts name topic) → Harmless name parts
  /-- A template that asks for no team is filled in literally. -/
  teamless {name : String} : .slot .team ∉ parts → Harmless name parts
  /-- A team without a percent sign that is no part of the topic's word is harmless. -/
  plain {name : String} : '%' ∉ name.toList → ¬ name.toList <:+: Slot.topic.word →
    Harmless name parts

/-- **A template is filled in literally exactly if its team is harmless.** -/
theorem fillsIn_of_apart (huses : resolver.Uses topic template team)
    (hapart : Apart template.toList) :
    resolver.FillsIn topic template team (Template.read [.team, .topic] template.toList) := by
  have hmarks := marks_read hapart
  generalize Template.read [.team, .topic] template.toList = parts at hmarks
  have hpath {name : String} (hname : team = some name ∨ .slot .team ∉ parts) :
      resolver.path topic = .ok (String.ofList
        (replace Slot.topic.placeholder topic.toList (fill (withTeam name) parts))) := by
    rw [huses.path_eq, render, render?_of_marks hmarks hname]
  refine ⟨hmarks, fun hasks hteam => ?_, fun hname => ?_, fun hname hharmless => ?_,
    fun hname hhead hliteral => ?_, harmless_of_notMem (hmarks.unmixed .topic),
    harmless_of_plain (hmarks.unmixed .topic)⟩
  · rw [huses.path_eq, render, render?_eq_none_iff.mpr ⟨hmarks.infix_iff.mpr hasks, hteam⟩]
  · rw [hpath hname, replace_eq_fill_read]
    rfl
  · rw [hpath hname, replace_fill withTeam_topic hharmless, update_withTeam]
    rfl
  · obtain ⟨c, hc, hne⟩ := hhead
    obtain ⟨cs, hcs⟩ := List.head?_eq_some_iff.mp hc
    rw [hpath hname, Template.literal, ← update_withTeam] at hliteral
    have htexts := String.ofList_injective (Except.ok.inj hliteral)
    rw [hcs] at htexts
    exact unmixed_of_replace withTeam_topic hne htexts

/-- One default rule, with a template and a team. -/
def oneTemplate (template team : String) : List TopicRule :=
  [{ TopicRule.fallback with template := some template, team := some team }]

theorem uses_oneTemplate (topic template team : String) :
    (multi (oneTemplate template team)).Uses topic template (some team) :=
  .multi rfl

/-- A topic that spells the team's placeholder is written literally, but a team can complete the
topic's placeholder without a percent sign of its own. -/
theorem fillsIn_finance :
    (multi (oneTemplate "kv/%TEAMNAME%/%TOPICNAME%" "finance")).Uses "%TEAMNAME%"
        "kv/%TEAMNAME%/%TOPICNAME%" (some "finance") ∧
      Apart "kv/%TEAMNAME%/%TOPICNAME%".toList ∧
      (multi (oneTemplate "kv/%TEAMNAME%/%TOPICNAME%" "finance")).path "%TEAMNAME%" =
        .ok "kv/finance/%TEAMNAME%" ∧
      ¬ Harmless "NA" (Template.read [.team, .topic] "%TOPIC%TEAMNAME%ME%".toList) := by
  have huses := uses_oneTemplate "%TEAMNAME%" "kv/%TEAMNAME%/%TOPICNAME%" "finance"
  have hapart : Apart "kv/%TEAMNAME%/%TOPICNAME%".toList := by decide
  have hfills := fillsIn_of_apart huses hapart
  have hcompleted :=
    fillsIn_of_apart (uses_oneTemplate "orders" "%TOPIC%TEAMNAME%ME%" "NA") (by decide)
  refine ⟨huses, hapart, ?_, fun hharmless => ?_⟩
  · rw [hfills.literal (.inl rfl) (hfills.plain (by decide) (by decide))]
    decide
  · have hliteral := hcompleted.literal (.inl rfl) hharmless
    exact absurd hliteral (by decide)

/-- Not every team is written literally. -/
theorem not_forall_path_literal :
    ¬ ∀ (resolver : TopicResolver) (topic template name : String),
      resolver.Uses topic template (some name) → Apart template.toList →
        resolver.path topic =
          .ok (Template.literal (Template.read [.team, .topic] template.toList) name topic) := by
  intro h
  have hliteral := h _ "orders" "kv/%TEAMNAME%/key" "%TOPICNAME%"
    (uses_oneTemplate _ _ _) (by decide)
  exact absurd hliteral (by decide)

end TopicResolver

end TopicCipher
