import Mathlib.Data.List.Basic
import Mathlib.Data.List.Forall2
import Mathlib.Data.List.Induction
import TopicCipher.Json.Reader

/-!
# What records and maps say

A JSON document keeps its fields as they were written, and what a record or a map makes of them is
left to readers.  This module says without the readers when they succeed, and with what.

* `Says`, `SaysOr`: what a field says that may be missing, with `optional_eq_some_iff` and
  `withDefault_eq_some_iff`.
* `Once`: a field that an object has at most once, with `field?_eq_some_iff`.
* `Fields`: the fields of a record, with `record?_eq_some_iff`.
* `mem_lastOfEach_iff`: where a map repeats a name, the last value counts.
* `map?_eq_singleton_iff`: the objects that are a map with a single name.  They may repeat the name,
  and then all of the values have to be readable, but only the last one counts.
-/

namespace TopicCipher.Json

variable {α β : Type}

/-! ## Lists of readings -/

/-- Where a list can be read, each item of it was read. -/
theorem exists_mem_of_mapM {f : α → Option β} {as : List α} {bs : List β} (h : as.mapM f = some bs)
    {a : α} (ha : a ∈ as) : ∃ b ∈ bs, f a = some b := by
  induction as generalizing bs with
  | nil => exact absurd ha List.not_mem_nil
  | cons first rest ih =>
    simp only [List.mapM_cons, Option.bind_eq_bind, Option.bind_eq_some_iff, Option.pure_def,
      Option.some.injEq] at h
    obtain ⟨b, hb, others, hothers, rfl⟩ := h
    rcases List.mem_cons.mp ha with rfl | ha
    · exact ⟨b, List.mem_cons_self, hb⟩
    · obtain ⟨c, hc, hread⟩ := ih hothers ha
      exact ⟨c, List.mem_cons_of_mem b hc, hread⟩

/-- A list is read item by item. -/
theorem mapM_eq_some_iff {f : α → Option β} {as : List α} {bs : List β} :
    as.mapM f = some bs ↔ List.Forall₂ (fun a b => f a = some b) as bs := by
  induction as generalizing bs with
  | nil => simp [eq_comm]
  | cons a as ih =>
    simp only [List.mapM_cons, Option.bind_eq_bind, Option.bind_eq_some_iff, Option.pure_def,
      Option.some.injEq, ih, List.forall₂_cons_left_iff]
    constructor
    · rintro ⟨b, hb, rest, hrest, rfl⟩
      exact ⟨b, rest, hb, hrest, rfl⟩
    · rintro ⟨b, rest, hb, hrest, rfl⟩
      exact ⟨b, hb, rest, hrest, rfl⟩

/-- Where each item can be read, the list can. -/
theorem exists_mapM {f : α → Option β} {p : β → Prop} {as : List α}
    (h : ∀ a ∈ as, ∃ b, f a = some b ∧ p b) : ∃ bs, as.mapM f = some bs ∧ ∀ b ∈ bs, p b := by
  induction as with
  | nil => exact ⟨[], rfl, by simp⟩
  | cons first rest ih =>
    rw [List.forall_mem_cons] at h
    obtain ⟨b, hb, hp⟩ := h.1
    obtain ⟨bs, hbs, hall⟩ := ih h.2
    exact ⟨b :: bs, by simp [List.mapM_cons, hb, hbs], List.forall_mem_cons.mpr ⟨hp, hall⟩⟩

/-! ## Fields -/

/-- What a field says that may be missing or null. -/
inductive Says (reads : Json → α → Prop) : Option Json → Option α → Prop where
  | missing : Says reads none none
  | null : Says reads (some .null) none
  | given {value : Json} {a : α} (hreads : reads value a) : Says reads (some value) (some a)

theorem optional_eq_some_iff {read : Json → Option α} {reads : Json → α → Prop}
    (hread : ∀ value a, read value = some a ↔ reads value a) (hnull : read .null = none)
    {field : Option Json} {answer : Option α} :
    optional read field = some answer ↔ Says reads field answer := by
  constructor
  · intro h
    rcases field with _ | value
    · obtain rfl := Option.some.inj h
      exact .missing
    · cases value with
      | null =>
        obtain rfl := Option.some.inj h
        exact .null
      | _ =>
        obtain ⟨a, ha, rfl⟩ := Option.map_eq_some_iff.mp h
        exact .given ((hread _ _).mp ha)
  · intro h
    cases h with
    | missing => rfl
    | null => rfl
    | @given value a hreads =>
      cases value with
      | null => exact absurd (hnull.symm.trans ((hread _ _).mpr hreads)) (by simp)
      | _ => exact Option.map_eq_some_iff.mpr ⟨a, (hread _ _).mpr hreads, rfl⟩

/-- What is made of what a field says. -/
theorem says_map_iff {reads : Json → α → Prop} {f : α → β} {field : Option Json}
    {answer : Option β} :
    Says (fun value b => ∃ a, reads value a ∧ f a = b) field answer ↔
      ∃ said, Says reads field said ∧ said.map f = answer := by
  constructor
  · intro h
    cases h with
    | missing => exact ⟨none, .missing, rfl⟩
    | null => exact ⟨none, .null, rfl⟩
    | given hreads =>
      obtain ⟨a, ha, rfl⟩ := hreads
      exact ⟨some a, .given ha, rfl⟩
  · rintro ⟨said, h, rfl⟩
    cases h with
    | missing => exact .missing
    | null => exact .null
    | given hreads => exact .given ⟨_, hreads, rfl⟩

/-- What a field says that may be missing, if there is a default. -/
inductive SaysOr (default : α) (reads : Json → α → Prop) : Option Json → α → Prop where
  | missing : SaysOr default reads none default
  | given {value : Json} {a : α} (hreads : reads value a) : SaysOr default reads (some value) a

theorem withDefault_eq_some_iff {default : α} {read : Json → Option α} {reads : Json → α → Prop}
    (hread : ∀ value a, read value = some a ↔ reads value a) {field : Option Json} {a : α} :
    withDefault default read field = some a ↔ SaysOr default reads field a := by
  cases field with
  | none =>
    constructor
    · intro h
      obtain rfl := Option.some.inj h
      exact .missing
    · intro h
      cases h
      rfl
  | some value =>
    constructor
    · exact fun h => .given ((hread value a).mp h)
    · intro h
      cases h with
      | given hreads => exact (hread value a).mpr hreads

theorem required_eq_some_iff {read : Json → Option α} {field : Option Json} {a : α} :
    required read field = some a ↔ ∃ value, field = some value ∧ read value = some a :=
  Option.bind_eq_some_iff

/-- The value is a string that spells the text. -/
def IsText (j : Json) (text : String) : Prop := j = .string (some text)

theorem text?_eq_some_iff {j : Json} {text : String} : j.text? = some text ↔ j.IsText text := by
  cases j <;> simp [text?, IsText]

/-- The value is a truth value. -/
def IsTruth (j : Json) (value : Bool) : Prop := j = .bool value

theorem bool?_eq_some_iff {j : Json} {value : Bool} : j.bool? = some value ↔ j.IsTruth value := by
  cases j <;> simp [bool?, IsTruth]

/-- The value is this natural number, written without sign, point and exponent. -/
def IsNat (j : Json) (k : Nat) : Prop := ∃ n, j = .number n ∧ n.toNat? = some k

theorem below?_eq_some_iff {bound : Nat} {j : Json} {k : Nat} :
    j.below? bound = some k ↔ j.IsNat k ∧ k < bound := by
  cases j <;> simp [below?, IsNat, Option.filter_eq_some_iff]

/-- The value is a number of at most sixty-four bits. -/
def IsLong (j : Json) (k : Nat) : Prop := j.IsNat k ∧ k < UInt64.size

theorem word64?_eq_some_iff {j : Json} {k : Nat} : j.word64? = some k ↔ j.IsLong k :=
  below?_eq_some_iff

/-- The value is a number that stands for the word, written without sign, point and exponent. -/
def IsWord (j : Json) (v : UInt32) : Prop := ∃ n, j = .number n ∧ n.toNat? = some v.toNat

theorem word32?_eq_some_iff {j : Json} {v : UInt32} : j.word32? = some v ↔ j.IsWord v := by
  rw [word32?, Option.map_eq_some_iff]
  constructor
  · rintro ⟨k, hk, rfl⟩
    obtain ⟨hnat, hlt⟩ := below?_eq_some_iff.mp hk
    rwa [IsWord, UInt32.toNat_ofNat_of_lt' hlt]
  · intro h
    exact ⟨v.toNat, below?_eq_some_iff.mpr ⟨h, v.toNat_lt⟩, UInt32.ofNat_toNat⟩

theorem optional_text?_eq_some_iff {field : Option Json} {answer : Option String} :
    optional text? field = some answer ↔ Says IsText field answer :=
  optional_eq_some_iff (fun _ _ => text?_eq_some_iff) rfl

theorem optional_word32?_eq_some_iff {field : Option Json} {answer : Option UInt32} :
    optional word32? field = some answer ↔ Says IsWord field answer :=
  optional_eq_some_iff (fun _ _ => word32?_eq_some_iff) rfl

/-- The object has the field once, with this value, or not at all. -/
def Once (fields : List (Option String × Json)) (name : String) (value : Option Json) : Prop :=
  fields.filter (·.1 = some name) = value.toList.map fun v => (some name, v)

theorem field?_eq_some_iff {fields : List (Option String × Json)} {name : String}
    {value : Option Json} : field? fields name = some value ↔ Once fields name value := by
  have hname : ∀ field ∈ fields.filter (·.1 = some name), field.1 = some name :=
    fun field hmem => by
    simpa using (List.mem_filter.mp hmem).2
  rw [field?, Once]
  generalize fields.filter (·.1 = some name) = named at hname
  rcases named with _ | ⟨⟨own, v⟩, _ | ⟨next, rest⟩⟩
  · cases value <;> simp
  · obtain rfl : own = some name := hname _ List.mem_cons_self
    cases value <;> simp [eq_comm]
  · cases value <;> simp

/-- The fields of a record, each with its value if it is there.  An object may have other fields
too, but none of these twice.  An array has just these, in this order, and the last ones may be
missing down to a minimum. -/
inductive Fields (names : List String) (minimum : Nat) : Json → List (Option Json) → Prop where
  | object {fields : List (Option String × Json)} {values : List (Option Json)}
      (hnames : ∀ field ∈ fields, field.1 ≠ none)
      (hvalues : List.Forall₂ (Once fields) names values) :
      Fields names minimum (.object fields) values
  | array {items : List Json} {missing : Nat} (hminimum : minimum ≤ items.length)
      (hlength : items.length + missing = names.length) :
      Fields names minimum (.array items) (items.map some ++ List.replicate missing none)

/-- An array that has all of the fields. -/
theorem fields_array {names : List String} {minimum : Nat} {items : List Json}
    (hminimum : minimum ≤ items.length) (hlength : items.length = names.length) :
    Fields names minimum (.array items) (items.map some) := by
  have hnone : items.map some ++ List.replicate 0 none = items.map some := List.append_nil _
  exact hnone ▸ .array hminimum hlength

/-- **What a record is.** -/
theorem record?_eq_some_iff {names : List String} {minimum : Nat} {j : Json}
    {values : List (Option Json)} :
    record? names minimum j = some values ↔ Fields names minimum j values := by
  constructor
  · intro h
    cases j with
    | array items =>
      rw [record?, Option.ite_none_right_eq_some] at h
      obtain ⟨⟨hminimum, hlength⟩, h⟩ := h
      obtain rfl := Option.some.inj h
      exact .array hminimum (by omega)
    | object fields =>
      rw [record?, Option.ite_none_right_eq_some, mapM_eq_some_iff] at h
      obtain ⟨hnames, h⟩ := h
      refine .object (fun field hfield => ?_) (h.imp fun _ _ hvalue => ?_)
      · exact Option.isSome_iff_ne_none.mp (List.all_eq_true.mp hnames field hfield)
      · exact field?_eq_some_iff.mp hvalue
    | _ => exact absurd h (by simp [record?])
  · intro h
    cases h with
    | object hnames hvalues =>
      rw [record?, if_pos (List.all_eq_true.mpr fun field hfield =>
        Option.isSome_iff_ne_none.mpr (hnames field hfield)), mapM_eq_some_iff]
      exact hvalues.imp fun _ _ hvalue => field?_eq_some_iff.mpr hvalue
    | @array items missing hminimum hlength =>
      rw [record?, if_pos ⟨hminimum, by omega⟩, ← hlength, Nat.add_sub_cancel_left]

/-! ## Maps -/

theorem lastOfEach_concat (pairs : List (String × α)) (pair : String × α) :
    lastOfEach (pairs ++ [pair]) = (lastOfEach pairs).filter (·.1 ≠ pair.1) ++ [pair] := by
  rw [lastOfEach, List.foldl_append]
  rfl

/-- No name is lost. -/
theorem exists_mem_lastOfEach {pairs : List (String × α)} {pair : String × α} (h : pair ∈ pairs) :
    ∃ last ∈ lastOfEach pairs, last.1 = pair.1 := by
  induction pairs using List.reverseRecOn with
  | nil => exact absurd h List.not_mem_nil
  | append_singleton pairs next ih =>
    rw [lastOfEach_concat]
    by_cases hname : next.1 = pair.1
    · exact ⟨next, by simp, hname⟩
    · rcases List.mem_append.mp h with h | h
      · obtain ⟨last, hlast, hsame⟩ := ih h
        refine ⟨last, List.mem_append_left _ (List.mem_filter.mpr ⟨hlast, ?_⟩), hsame⟩
        simpa [hsame] using fun hother : pair.1 = next.1 => hname hother.symm
      · obtain rfl := List.mem_singleton.mp h
        exact absurd rfl hname

theorem mem_of_mem_lastOfEach {pairs : List (String × α)} {pair : String × α}
    (h : pair ∈ lastOfEach pairs) : pair ∈ pairs := by
  induction pairs using List.reverseRecOn with
  | nil => exact absurd h List.not_mem_nil
  | append_singleton pairs next ih =>
    rw [lastOfEach_concat, List.mem_append] at h
    rcases h with h | h
    · exact List.mem_append_left _ (ih (List.mem_of_mem_filter h))
    · exact List.mem_append_right _ h

/-- The last of the pairs with the name. -/
def IsLast (pairs : List (String × α)) (name : String) (a : α) : Prop :=
  ∃ above below, pairs = above ++ (name, a) :: below ∧ ∀ pair ∈ below, pair.1 ≠ name

theorem isLast_concat_iff {pairs : List (String × α)} {pair : String × α} {name : String} {a : α} :
    IsLast (pairs ++ [pair]) name a ↔
      pair = (name, a) ∨ pair.1 ≠ name ∧ IsLast pairs name a := by
  constructor
  · rintro ⟨above, below, heq, hbelow⟩
    rcases List.eq_nil_or_concat below with rfl | ⟨front, last, rfl⟩
    · exact .inl (List.append_inj_right' heq rfl |> List.singleton_inj.mp)
    · rw [List.concat_eq_append, ← List.cons_append, ← List.append_assoc] at heq
      obtain ⟨rfl, hlast⟩ := List.append_inj' heq rfl
      obtain rfl := List.singleton_inj.mp hlast
      rw [List.concat_eq_append] at hbelow
      exact .inr ⟨hbelow pair (List.mem_append_right front (List.mem_singleton_self pair)),
        above, front, rfl, fun other hother => hbelow other (List.mem_append_left _ hother)⟩
  · rintro (rfl | ⟨hne, above, below, rfl, hbelow⟩)
    · exact ⟨pairs, [], rfl, by simp⟩
    · refine ⟨above, below ++ [pair], by simp, fun other hother => ?_⟩
      rcases List.mem_append.mp hother with hother | hother
      · exact hbelow other hother
      · rwa [List.mem_singleton.mp hother]

/-- **The last value of a name counts.** -/
theorem mem_lastOfEach_iff {pairs : List (String × α)} {name : String} {a : α} :
    (name, a) ∈ lastOfEach pairs ↔ IsLast pairs name a := by
  induction pairs using List.reverseRecOn with
  | nil => simp [lastOfEach, IsLast]
  | append_singleton pairs pair ih =>
    rw [lastOfEach_concat, isLast_concat_iff, List.mem_append, List.mem_filter, ih,
      List.mem_singleton, decide_eq_true_eq, or_comm, and_comm, eq_comm, ne_comm]

/-- No name is left twice. -/
theorem pairwise_lastOfEach (pairs : List (String × α)) :
    (lastOfEach pairs).Pairwise fun pair other => pair.1 ≠ other.1 := by
  induction pairs using List.reverseRecOn with
  | nil => exact .nil
  | append_singleton pairs pair ih =>
    rw [lastOfEach_concat, List.pairwise_append]
    refine ⟨ih.filter _, List.pairwise_singleton _ _, fun other hother last hlast => ?_⟩
    rw [List.mem_singleton.mp hlast]
    simpa using (List.mem_filter.mp hother).2

/-- Where no name repeats, a name has the value that stands with it, if that can be read. -/
theorem lookup_filterMap_eq_some_iff {read : α → Option β} {pairs : List (String × α)}
    (hpairs : pairs.Pairwise fun pair other => pair.1 ≠ other.1) {name : String} {b : β} :
    (pairs.filterMap fun (own, a) => (read a).map (own, ·)).lookup name = some b ↔
      ∃ a, (name, a) ∈ pairs ∧ read a = some b := by
  induction pairs with
  | nil => simp
  | cons pair pairs ih =>
    obtain ⟨own, a⟩ := pair
    obtain ⟨hown, hrest⟩ := List.pairwise_cons.mp hpairs
    rw [List.filterMap_cons]
    by_cases hname : name = own
    · subst hname
      have honly (a' : α) : (name, a') ∈ (name, a) :: pairs ↔ a' = a := by
        rw [List.mem_cons, Prod.mk.injEq, eq_self, true_and, or_iff_left_iff_imp]
        exact fun hmem => (hown (name, a') hmem rfl).elim
      simp only [honly, exists_eq_left]
      cases hread : read a with
      | some b' => simp
      | none =>
        refine iff_of_false (fun h => ?_) (by simp)
        obtain ⟨a', hmem, -⟩ := (ih hrest).mp h
        exact hown _ hmem rfl
    · have hskip (a' : α) : (name, a') ∈ (own, a) :: pairs ↔ (name, a') ∈ pairs := by
        simp [hname]
      simp only [hskip, ← ih hrest]
      cases read a with
      | none => rfl
      | some b' => simp [List.lookup_cons, beq_false_of_ne hname]

/-- **One name is left** exactly if all pairs have it, and then the last one counts. -/
theorem lastOfEach_concat_eq_singleton_iff {pairs : List (String × α)} {last pair : String × α} :
    lastOfEach (pairs ++ [last]) = [pair] ↔ last = pair ∧ ∀ other ∈ pairs, other.1 = pair.1 := by
  have hfilter : (lastOfEach pairs).filter (·.1 ≠ last.1) = [] ↔
      ∀ other ∈ pairs, other.1 = last.1 := by
    simp only [List.filter_eq_nil_iff, decide_eq_true_eq, not_not]
    constructor
    · intro h other hother
      obtain ⟨kept, hkept, hsame⟩ := exists_mem_lastOfEach hother
      exact hsame.symm.trans (h kept hkept)
    · exact fun h other hother => h other (mem_of_mem_lastOfEach hother)
  rw [lastOfEach_concat]
  constructor
  · intro h
    obtain ⟨hnone, hlast⟩ := List.append_inj' (h.trans (List.nil_append [pair]).symm) rfl
    obtain rfl := List.singleton_inj.mp hlast
    exact ⟨rfl, hfilter.mp hnone⟩
  · rintro ⟨rfl, hall⟩
    rw [hfilter.mpr hall, List.nil_append]

/-- A field of a map, read. -/
def readField (read : Json → Option α) (field : Option String × Json) : Option (String × α) := do
  some (← field.1, ← read field.2)

theorem readField_eq_some_iff {read : Json → Option α} {field : Option String × Json}
    {name : String}
    {a : α} :
    readField read field = some (name, a) ↔ field.1 = some name ∧ read field.2 = some a := by
  obtain ⟨own, value⟩ := field
  simp only [readField]
  cases own <;> cases read value <;> simp

theorem map?_object_eq_some_iff {read : Json → Option α} {fields : List (Option String × Json)}
    {map : List (String × α)} :
    map? read (.object fields) = some map ↔
      ∃ pairs, fields.mapM (readField read) = some pairs ∧ lastOfEach pairs = map := by
  show (fields.mapM (readField read) >>= fun pairs => some (lastOfEach pairs)) = _ ↔ _
  simp [Option.bind_eq_some_iff]

/-- **A map with a single name**: the object has no other name, every value can be read, and the
last one counts. -/
theorem map?_eq_singleton_iff {read : Json → Option α} {j : Json} {name : String} {a : α} :
    map? read j = some [(name, a)] ↔
      ∃ above value, j = .object (above ++ [(some name, value)]) ∧
        (∀ field ∈ above, field.1 = some name ∧ ∃ b, read field.2 = some b) ∧
        read value = some a := by
  constructor
  · intro h
    cases j with
    | object fields =>
      obtain ⟨pairs, hpairs, hlast⟩ := map?_object_eq_some_iff.mp h
      rcases List.eq_nil_or_concat fields with rfl | ⟨above, ⟨own, value⟩, rfl⟩
      · obtain rfl := Option.some.inj hpairs
        exact absurd hlast (by simp [lastOfEach])
      · simp only [List.concat_eq_append, List.mapM_append, List.mapM_cons, List.mapM_nil,
          Option.bind_eq_bind, Option.bind_eq_some_iff, Option.pure_def,
          Option.some.injEq] at hpairs
        obtain ⟨front, hfront, _, ⟨last, hread, _, rfl, rfl⟩, rfl⟩ := hpairs
        obtain ⟨rfl, hall⟩ := lastOfEach_concat_eq_singleton_iff.mp hlast
        obtain ⟨rfl, hvalue⟩ := readField_eq_some_iff.mp hread
        refine ⟨above, value, by rw [List.concat_eq_append], fun field hfield => ?_, hvalue⟩
        obtain ⟨⟨own, b⟩, hmem, hfieldRead⟩ := exists_mem_of_mapM hfront hfield
        obtain ⟨hname, hb⟩ := readField_eq_some_iff.mp hfieldRead
        exact ⟨hname.trans (congrArg some (hall _ hmem)), b, hb⟩
    | _ => exact absurd h (by simp [map?])
  · rintro ⟨above, value, rfl, habove, hvalue⟩
    have hfields : ∀ field ∈ above, ∃ pair, readField read field = some pair ∧ pair.1 = name := by
      intro field hfield
      obtain ⟨hname, b, hb⟩ := habove field hfield
      exact ⟨(name, b), readField_eq_some_iff.mpr ⟨hname, hb⟩, rfl⟩
    obtain ⟨front, hfront, hall⟩ := exists_mapM hfields
    have hlast : readField read (some name, value) = some (name, a) :=
      readField_eq_some_iff.mpr ⟨rfl, hvalue⟩
    refine map?_object_eq_some_iff.mpr ⟨front ++ [(name, a)], ?_,
      lastOfEach_concat_eq_singleton_iff.mpr ⟨rfl, hall⟩⟩
    simp [List.mapM_append, hfront, hlast]

theorem items?_eq_singleton_iff {read : Json → Option α} {j : Json} {a : α} :
    items? read j = some [a] ↔ ∃ item, j = .array [item] ∧ read item = some a := by
  cases j with
  | array items =>
    rcases items with _ | ⟨item, _ | ⟨next, rest⟩⟩
    · simp [items?]
    · cases hread : read item <;> simp [items?, hread]
    · simp [items?, List.mapM_cons, Option.bind_eq_some_iff]
  | _ => simp [items?]

end TopicCipher.Json
