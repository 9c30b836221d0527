import TopicCipher.Proofs.KeyCache.Text
import TopicCipher.Proofs.Time.Instant

/-!
# What a stored text keeps

The text of a cache is written anew with every update, so every entry goes through the text again
and again.  A text keeps each entry on its own, whatever stands beside it: `stored?` is what it
keeps of one entry, and a text keeps the entries one by one, up to their order
(`perm_parse_serialize`).

The first time an entry is written it may change, because an empty key name reads as none and an
expiry may reach into a second of its own; or it may be lost, because it cannot be said in a line.
After that it is *stable*: it is kept as it is, any number of times.

* `stored?_eq_some_iff`: what is kept of which entries.
* `isStable_of_stored?`: what was kept once is stable.
* `asRead_of_mem_parse`: what was read from any text reads alike from then on.
* `parse_serialize_eq_filterMap`, `perm_parse_serialize`, `perm_parse_storedText`: a text keeps
  entries one by one.
-/

namespace TopicCipher.KeyCache

/-! ## One entry -/

/-- An entry that a line can say: nothing in it breaks the line, its version is positive, and the
year of its expiry has four digits. -/
structure IsStorable (e : CacheEntry) : Prop where
  writable : isWritable e = true
  version : e.key.version ≠ 0
  year : ∀ t, e.expiresAt = some t → t.HasFourDigitYear

/-- An entry as its line reads: an empty key name is no key name, and an expiry does not reach into
a leap second where there is none. -/
def asRead (e : CacheEntry) : CacheEntry :=
  ⟨e.topic, ⟨e.key.version, e.key.keyName.filter (· ≠ ""), e.key.material⟩,
    e.expiresAt.map Instant.carry⟩

/-- Reading leaves alone what has no empty name. -/
theorem asRead_of_keyName_ne {topic : String} {key : KeyVersion} {expiresAt : Option Instant}
    (h : key.keyName ≠ some "") :
    asRead ⟨topic, key, expiresAt⟩ = ⟨topic, key, expiresAt.map Instant.carry⟩ := by
  obtain ⟨version, keyName, material⟩ := key
  rcases keyName with _ | name
  · rfl
  · have hne : name ≠ "" := fun hempty => h (by rw [hempty])
    simp [asRead, Option.filter, hne]

/-- What reads as it is has no empty name. -/
theorem keyName_ne_of_asRead {e : CacheEntry} (h : asRead e = e) : e.key.keyName ≠ some "" := by
  intro hname
  have hread : e.key.keyName.filter (· ≠ "") = e.key.keyName := congrArg (·.key.keyName) h
  simp [hname] at hread

/-- What reads as it is does so with another expiry. -/
theorem asRead_extended {e : CacheEntry} {x : Instant} (h : asRead e = e) (hcarry : x.carry = x) :
    asRead { e with expiresAt := some x } = { e with expiresAt := some x } := by
  have hkey : (asRead e).key = e.key := by rw [h]
  rw [asRead, Option.map_some, hcarry]
  exact congrArg (CacheEntry.mk e.topic · (some x)) hkey

/-- What a text keeps of an entry. -/
def stored? (e : CacheEntry) : Option CacheEntry := if isWritable e then reread? e else none

theorem readExpiry?_eq_some_iff {expiresAt read : Option Instant} :
    readExpiry? (expiresAt.elim [] Timestamp.chars) = some read ↔
      (∀ t, expiresAt = some t → t.HasFourDigitYear) ∧ read = expiresAt.map Instant.carry := by
  rcases expiresAt with _ | t
  · simp [readExpiry?, eq_comm]
  · rw [Option.elim_some, readExpiry?.eq_2 _ (timestamp_ne_nil t), Option.map_eq_some_iff]
    simp only [Timestamp.read?_chars_eq_some_iff, Option.some.injEq, Option.map_some,
      forall_eq', @eq_comm _ _ read, and_assoc, exists_and_left, exists_eq_left]

/-- A text keeps the entries that a line can say, as the line reads. -/
theorem stored?_eq_some_iff {e e' : CacheEntry} :
    stored? e = some e' ↔ IsStorable e ∧ e' = asRead e := by
  rw [stored?]
  split
  next hwritable =>
    rw [reread?_eq_some_iff, readExpiry?_eq_some_iff]
    constructor
    · rintro ⟨⟨hyear, hexpiry⟩, hversion, htopic, hkey⟩
      obtain ⟨topic, key, expiresAt⟩ := e'
      obtain rfl : topic = _ := htopic
      obtain rfl : key = _ := hkey
      obtain rfl : expiresAt = _ := hexpiry
      exact ⟨⟨hwritable, hversion, hyear⟩, rfl⟩
    · rintro ⟨h, rfl⟩
      exact ⟨⟨h.year, rfl⟩, h.version, rfl, rfl⟩
  next hwritable =>
    constructor
    · intro h
      exact absurd h.symm (Option.some_ne_none e')
    · rintro ⟨h, -⟩
      exact absurd h.writable hwritable

theorem stored?_eq_none_iff {e : CacheEntry} : stored? e = none ↔ ¬ IsStorable e := by
  rw [Option.eq_none_iff_forall_ne_some]
  simp only [ne_eq, stored?_eq_some_iff, not_and]
  exact ⟨fun h hstorable => h _ hstorable rfl, fun h _ hstorable => absurd hstorable h⟩

/-- A stable entry is kept as it is. -/
def IsStable (e : CacheEntry) : Prop := stored? e = some e

/-- Only an empty key name and an improper expiry keep an entry that can be stored from being
stable. -/
theorem isStable_iff {e : CacheEntry} :
    IsStable e ↔ IsStorable e ∧ e.key.keyName ≠ some "" ∧
      ∀ t, e.expiresAt = some t → t.carry = t := by
  obtain ⟨topic, ⟨version, keyName, material⟩, expiresAt⟩ := e
  rw [IsStable, stored?_eq_some_iff]
  refine and_congr_right fun _ => ?_
  simp only [asRead, CacheEntry.mk.injEq, KeyVersion.mk.injEq, true_and, and_true]
  refine and_congr ?_ ?_
  · rcases keyName with _ | name
    · simp
    · by_cases hname : name = "" <;> simp [Option.filter, hname]
  · rcases expiresAt with _ | t
    · simp
    · simp [eq_comm]

theorem isWritable_asRead {e : CacheEntry} (h : isWritable e = true) :
    isWritable (asRead e) = true := by
  simp only [isWritable, asRead, Bool.and_eq_true] at h ⊢
  refine ⟨⟨⟨h.1.1.1, ?_⟩, h.1.2⟩, h.2⟩
  rcases hname : e.key.keyName with _ | name
  · rfl
  · have hfits := h.1.1.2
    rw [hname] at hfits
    by_cases hempty : name = ""
    · simp [Option.filter, hempty]
    · simpa [Option.filter, hempty] using hfits

/-- **What was kept once is stable.** -/
theorem isStable_of_stored? {e e' : CacheEntry} (h : stored? e = some e') : IsStable e' := by
  obtain ⟨hstorable, rfl⟩ := stored?_eq_some_iff.mp h
  refine isStable_iff.mpr ⟨⟨isWritable_asRead hstorable.writable, hstorable.version, ?_⟩, ?_, ?_⟩
  · intro t ht
    obtain ⟨u, hu, rfl⟩ := Option.map_eq_some_iff.mp ht
    rw [Instant.HasFourDigitYear, Instant.year_carry]
    exact hstorable.year u hu
  · intro hname
    obtain ⟨-, hne⟩ := Option.filter_eq_some_iff.mp hname
    simp at hne
  · intro t ht
    obtain ⟨u, -, rfl⟩ := Option.map_eq_some_iff.mp ht
    exact Instant.carry_of_isProper u.isProper_carry

/-- **What was read once reads alike from then on**, also from a text that no cache has written. -/
theorem asRead_of_mem_parse {text : String} {e : CacheEntry} (h : e ∈ parse text) :
    asRead e = e := by
  obtain ⟨line, hline⟩ := exists_line_of_mem_parse h
  obtain ⟨-, hname, part, hpart⟩ := entry_of_ofChars hline
  obtain ⟨topic, ⟨version, keyName, material⟩, expiresAt⟩ := e
  simp only [asRead, CacheEntry.mk.injEq, KeyVersion.mk.injEq, true_and, and_true]
  constructor
  · rcases keyName with _ | name
    · rfl
    · have hne : name ≠ "" := fun hempty => hname (by rw [hempty])
      simp [Option.filter, hne]
  · rcases expiresAt with _ | t
    · rfl
    · rcases part with _ | ⟨c, part⟩
      · exact absurd hpart (by simp [readExpiry?])
      · obtain ⟨u, hread, hu⟩ := Option.map_eq_some_iff.mp hpart
        obtain rfl := Option.some.inj hu
        rw [Option.map_some, Instant.carry_of_isProper (Timestamp.isProper_of_read? hread)]

/-- A stable entry with a new expiry is kept, if the year of the expiry has four digits. -/
theorem IsStable.extended {e : CacheEntry} (h : IsStable e) {expiresAt : Instant}
    (hyear : expiresAt.HasFourDigitYear) :
    stored? { e with expiresAt := some expiresAt } =
      some { e with expiresAt := some expiresAt.carry } := by
  obtain ⟨hstorable, hname, -⟩ := isStable_iff.mp h
  obtain ⟨topic, ⟨version, keyName, material⟩, _⟩ := e
  refine stored?_eq_some_iff.mpr ⟨⟨hstorable.writable, hstorable.version, ?_⟩, ?_⟩
  · intro t ht
    obtain rfl := Option.some.inj ht
    exact hyear
  · rcases keyName with _ | name
    · rfl
    · have hne : name ≠ "" := fun hempty => hname (by rw [hempty])
      simp [asRead, Option.filter, hne]

/-! ## All entries -/

theorem filterMap_stored?_of_isStable {es : List CacheEntry} (h : ∀ e ∈ es, IsStable e) :
    es.filterMap stored? = es := by
  induction es with
  | nil => rfl
  | cons e rest ih =>
    rw [List.filterMap_cons_some (h e List.mem_cons_self),
      ih fun e' he' => h e' (List.mem_cons_of_mem e he')]

/-- A text keeps entries one by one, in their order. -/
theorem parse_serialize_eq_filterMap (es : List CacheEntry) :
    parse (serialize es) = (es.mergeSort fun a b => (a.order b).isLE).filterMap stored? := by
  rw [parse_serialize, arrange, List.filterMap_filter]
  rfl

/-- **A text keeps entries one by one**, up to their order. -/
theorem perm_parse_serialize (es : List CacheEntry) :
    (parse (serialize es)).Perm (es.filterMap stored?) := by
  rw [parse_serialize_eq_filterMap]
  exact (List.mergeSort_perm es _).filterMap stored?

/-- A text is stored as it is, or replaced if it is too long. -/
theorem storedText_cases (es : List CacheEntry) (maxChars : Nat) :
    (maxChars < (serialize es).length ∧ storedText es maxChars = empty) ∨
      ((serialize es).length ≤ maxChars ∧ storedText es maxChars = serialize es) := by
  by_cases hlong : maxChars < (serialize es).length
  · exact .inl ⟨hlong, if_pos hlong⟩
  · exact .inr ⟨Nat.not_lt.mp hlong, if_neg hlong⟩

/-- A stored text keeps entries one by one, or none at all. -/
theorem perm_parse_storedText (es : List CacheEntry) (maxChars : Nat) :
    parse (storedText es maxChars) = [] ∨
      (parse (storedText es maxChars)).Perm (es.filterMap stored?) := by
  rcases storedText_cases es maxChars with ⟨-, htext⟩ | ⟨-, htext⟩ <;> rw [htext]
  · exact .inl parse_empty
  · exact .inr (perm_parse_serialize es)

/-- What was written once can be written again. -/
theorem isStable_of_mem_parse_serialize {es : List CacheEntry} {e : CacheEntry}
    (h : e ∈ parse (serialize es)) : IsStable e := by
  obtain ⟨written, -, hstored⟩ := List.mem_filterMap.mp ((perm_parse_serialize es).mem_iff.mp h)
  exact isStable_of_stored? hstored

end TopicCipher.KeyCache
