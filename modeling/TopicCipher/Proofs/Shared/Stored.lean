import TopicCipher.Proofs.KeyCache.Best
import TopicCipher.Proofs.Shared.Provenance
import TopicCipher.Proofs.Shared.Smooth

/-!
# What a run stores

Caches share a text that was empty at first.  Then the text is not any text: its keys to encrypt
under were answers of the sources, its expiries were counted from readings of the clocks, and its
entries were sorted before they were written.  How much of that can be seen in the text depends on
what was said: a clock may tell a second that is not there, and a key may have an empty name.
Neither can be written down, and both are read as something else, which stands at another place in
the order.

* `mem_fetchedKeys_of_reaches`: the keys are those that were answered.
* `expiry_of_reaches`: no expiry lies behind the latest one.
* `ordered_of_reaches`: the entries are in their order.
-/

namespace TopicCipher.Shared

open KeyCache

variable {ι : Type} {options : ι → CachingOptions} {i : ι} {s t : Place ι} {topic : String}
  {answer : Except KeyError (Option KeyVersion)}

/-! ## Keys -/

/-- The key that a source answered with in the exchange, when it was asked for the key to encrypt
the topic under; its material is as it is stored. -/
def fetchedKey? (topic : String) : Exchange (Question ι) Answer → Option KeyVersion
  | ⟨.encryptionKey _ asked, .ok (some key)⟩ =>
    if asked = topic then some { key with material := Text.trim key.material } else none
  | _ => none

/-- The keys that the sources answered with. -/
def fetchedKeys (topic : String) (history : History ι) : List KeyVersion :=
  history.filterMap (fetchedKey? topic)

theorem fetchedKeys_append_since (topic : String) (h : s.2 <+: t.2) :
    fetchedKeys topic s.2 ++ fetchedKeys topic (since s t) = fetchedKeys topic t.2 := by
  rw [fetchedKeys, fetchedKeys, fetchedKeys, ← List.filterMap_append, append_since h]

theorem mem_fetchedKeys {history : History ι} {key : KeyVersion} :
    key ∈ fetchedKeys topic history ↔
      ∃ i original, ⟨.encryptionKey i topic, .ok (some original)⟩ ∈ history ∧
        { original with material := Text.trim original.material } = key := by
  rw [fetchedKeys, List.mem_filterMap]
  constructor
  · rintro ⟨⟨q, answer⟩, hmem, hkey⟩
    cases q with
    | encryptionKey i asked =>
      rcases answer with err | _ | original
      · exact absurd hkey.symm (Option.some_ne_none key)
      · exact absurd hkey.symm (Option.some_ne_none key)
      · rw [fetchedKey?] at hkey
        split at hkey
        next hasked => exact ⟨i, original, hasked ▸ hmem, Option.some.inj hkey⟩
        next => exact absurd hkey.symm (Option.some_ne_none key)
    | _ => exact absurd hkey.symm (Option.some_ne_none key)
  · rintro ⟨i, original, hmem, rfl⟩
    exact ⟨_, hmem, if_pos rfl⟩

/-- **The stored keys of a topic are fetched ones.** -/
theorem mem_fetchedKeys_of_reaches (hrun : Reaches (perform options) fresh s)
    (hnames : ∀ key ∈ fetchedKeys topic s.2, key.keyName ≠ some "") :
    ∀ e ∈ encryptionEntries (entriesOf s.1) topic, e.key ∈ fetchedKeys topic s.2 := by
  intro e he
  obtain ⟨hmem, rfl, henc⟩ := mem_encryptionEntries.mp he
  obtain ⟨htrim, i, original, hasked, hversion, hname, hmaterial⟩ :=
    founded_fetchedLaw.of_reaches hrun e hmem henc
  refine mem_fetchedKeys.mpr ⟨i, original, hasked, ?_⟩
  have hsame : original.keyName = e.key.keyName := by
    refine hname.resolve_right fun hempty => ?_
    exact hnames _ (mem_fetchedKeys.mpr ⟨i, original, hasked, rfl⟩) hempty.1
  rw [hversion, hsame, hmaterial, htrim]

/-! ## Expiries -/

/-- **No stored entry expires after the latest expiry there is**, nor in a second that is not
there. -/
theorem expiry_of_reaches (hrun : Reaches (perform options) fresh s)
    (hproper : ∀ now ∈ readings s.2, now.IsProper) :
    ∀ e ∈ entriesOf s.1, ∀ x, e.expiresAt = some x → x.IsProper ∧ x ≤ latestExpiry := by
  refine hrun.invariant (I := fun s => (∀ now ∈ readings s.2, now.IsProper) →
    ∀ e ∈ entriesOf s.1, ∀ x, e.expiresAt = some x → x.IsProper ∧ x ≤ latestExpiry) ?_
    (fun _ _ he => absurd he List.not_mem_nil) hproper
  intro call s _ t hs hgives hproper
  have hbefore := hs fun now hnow => hproper now (((gives_later hgives).filterMap _).subset hnow)
  rcases sublist_or_revision_of_gives hgives with
    hkept | ⟨i, lookup, answer, failure, updated, hrevision, hstored⟩
  · exact fun e he => hbefore e (hkept.mem he)
  · rw [hstored]
    have hset : ∀ now extra, Said s t ⟨.time i, now⟩ → ∀ x,
        some (expiryAfter now (options i).ttl extra) = some x → x.IsProper ∧ x ≤ latestExpiry := by
      rintro now extra hnow x hx
      obtain rfl := Option.some.inj hx
      exact ⟨isProper_expiryAfter (hproper now hnow.reading_mem) _ _, expiryAfter_le_latest _ _ _⟩
    refine forall_mem_parse_serialize ?_ (hrevision.forall_mem
      (fun e he => hbefore e ((loaded_sublist s.1 failure).mem he))
      (fun e now extra _ hnow => hset now extra hnow)
      (fun topic key now extra hnow _ => hset now extra hnow)
      fun _ _ _ _ x hx => absurd hx (Option.some_ne_none x).symm)
    -- An expiry in a second that is there is read as it was written.
    intro e e' h hreread x hx
    obtain ⟨hread, -, -, -⟩ := reread?_eq_some_iff.mp hreread
    obtain ⟨-, hexpiry⟩ := readExpiry?_eq_some_iff.mp hread
    rw [hexpiry] at hx
    obtain ⟨written, hwritten, rfl⟩ := Option.map_eq_some_iff.mp hx
    rw [Instant.carry_of_isProper (h written hwritten).1]
    exact h written hwritten

/-! ## The order of entries -/

/-- A revision is read in its order, as far as a topic is concerned whose keys have no empty
name. -/
theorem Revision.ordered {options : CachingOptions} {lookup : Lookup}
    {entries updated : List CacheEntry}
    (h : Revision options i s t entries lookup answer updated) (hread : ∀ e ∈ entries, asRead e = e)
    (hproper : ∀ now, Said s t ⟨.time i, now⟩ → now.IsProper)
    (hnames : ∀ key, Said s t ⟨.encryptionKey i topic, .ok (some key)⟩ → key.keyName ≠ some "") :
    Ordered (encryptionEntries (parse (serialize updated)) topic) := by
  have hcarry : ∀ now extra, Said s t ⟨.time i, now⟩ →
      (expiryAfter now options.ttl extra).carry = expiryAfter now options.ttl extra :=
    fun now extra hnow => Instant.carry_of_isProper (isProper_expiryAfter (hproper now hnow) _ _)
  have hreadAlike : ∀ e ∈ updated, e.topic = topic → e.isEncryption = true → asRead e = e := by
    refine h.forall_mem (fun e he _ _ => hread e he)
      (fun e now extra he hnow _ _ => asRead_extended (hread e he) (hcarry now extra hnow)) ?_ ?_
    · rintro asked key now extra hnow hasked rfl -
      rw [CacheEntry.forEncryption, asRead_of_keyName_ne, Option.map_some, hcarry now extra hnow]
      exact hnames key hasked
    · rintro _ _ _ _ - henc
      exact absurd henc Bool.false_ne_true
  refine ordered_filter_parse_serialize (isEncryptionOf_asRead topic) fun e he hp => ?_
  rw [Bool.and_eq_true, decide_eq_true_eq] at hp
  exact hreadAlike e he hp.1 hp.2

/-- **What is stored is in its order**, as far as a topic is concerned whose keys have no empty
name. -/
theorem ordered_of_reaches (hrun : Reaches (perform options) fresh s)
    (hproper : ∀ now ∈ readings s.2, now.IsProper)
    (hnames : ∀ key ∈ fetchedKeys topic s.2, key.keyName ≠ some "") :
    Ordered (encryptionEntries (entriesOf s.1) topic) := by
  refine hrun.invariant (I := fun s => (∀ now ∈ readings s.2, now.IsProper) →
    (∀ key ∈ fetchedKeys topic s.2, key.keyName ≠ some "") →
    Ordered (encryptionEntries (entriesOf s.1) topic)) ?_ ?_ hproper hnames
  · intro call s _ t hs hgives hproper hnames
    have hlater : s.2 <+: t.2 := gives_later hgives
    rcases sublist_or_revision_of_gives hgives with
      hkept | ⟨i, lookup, answer, failure, updated, hrevision, hstored⟩
    · have hbefore := hs (fun now hnow => hproper now ((hlater.filterMap _).subset hnow))
        fun key hkey => hnames key ((hlater.filterMap _).subset hkey)
      exact hbefore.sublist (hkept.filter _)
    · rw [hstored]
      exact hrevision.ordered
        (fun e he => asRead_of_mem_entriesOf e ((loaded_sublist s.1 failure).mem he))
        (fun now hnow => hproper now hnow.reading_mem) fun key hasked =>
          hnames { key with material := Text.trim key.material }
            (mem_fetchedKeys.mpr ⟨i, key, hasked.mem, rfl⟩)
  · exact fun _ _ => .nil

end TopicCipher.Shared
