import TopicCipher.Proofs.Shared.Updates

/-!
# How long a replaced key stays in a cache

From some instant on, the source behind a cache has a new key for a topic, and answers with nothing
else.  Before that it may have answered with other keys, or that there is none, or not at all.  How
long does the cache go on with what it learned then?

An entry that does not hold the new key was stored, or was allowed to live on, at a reading of the
clock before that instant, because at later readings the source would have answered with the new
key.  So it expires no later than one lifetime of the cache after that instant: it *fades*.  The
stored text is written and read again on behalf of all topics, but that changes no expiry.

* `Rotated`: what is known of the outside.
* `Fades`: what holds of every stored entry from then on.
* `EncryptionTurn.allFade`, `DecryptionTurn.allFade`: every lookup keeps it.
* `EncryptionTurn.sameAs_or_lt`: a lookup gives the new key, or its reading of the clock lies before
  the last entry has faded.
-/

namespace TopicCipher

/-- The longest time that a cache keeps a key to encrypt under, in nanoseconds. -/
def CachingOptions.lifetime (o : CachingOptions) : Nat := o.ttl.nanos + o.maxJitter.nanos

/-- The keys have the same version and, up to blanks, the same material. -/
def KeyVersion.SameAs (found key : KeyVersion) : Prop :=
  found.version = key.version ∧ Text.trim found.material = Text.trim key.material

theorem CacheEntry.sameAs_of_holds {e : CacheEntry} {key : KeyVersion} (h : e.holds key = true) :
    e.key.SameAs key := by
  have hkey : e.key = { key with material := Text.trim key.material } := by
    simpa [holds] using h
  rw [hkey]
  exact ⟨rfl, Text.trim_trim _⟩

namespace Shared

open KeyCache

variable {ι : Type} {caching : CachingOptions} {i : ι} {topic : String} {key : KeyVersion}
  {since : Instant}

/-- The clock tells times that never go back, no jitter goes beyond its bound, and whenever the
source behind the cache is asked for the key of the topic at a reading since the instant, it answers
with the new key. -/
structure Rotated (i : ι) (topic : String) (key : KeyVersion) (since : Instant)
    (history : History ι) : Prop where
  told : ∀ now ∈ readings history, now.IsTold
  forward : (readings history).Pairwise (· ≤ ·)
  bounded : ∀ bound extra, ⟨.jitter i bound, extra⟩ ∈ history → extra.nanos ≤ bound.nanos
  rotated : ∀ now answer, since ≤ now →
    [⟨.time i, now⟩, ⟨.encryptionKey i topic, answer⟩] <:+: history → answer = .ok (some key)

namespace Rotated

variable {history later : History ι}

theorem earlier (h : Rotated i topic key since later) (hlater : history <+: later) :
    Rotated i topic key since history where
  told now hnow := h.told now ((hlater.filterMap _).subset hnow)
  forward := h.forward.sublist (hlater.filterMap _).sublist
  bounded bound extra hextra := h.bounded bound extra (hlater.subset hextra)
  rotated now answer hsince hasked := h.rotated now answer hsince (hasked.trans hlater.isInfix)

theorem isTold (h : Rotated i topic key since history) {now : Instant}
    (hnow : ⟨.time i, now⟩ ∈ history) : now.IsTold :=
  h.told now (List.mem_filterMap.mpr ⟨_, hnow, rfl⟩)

/-- The answer to a lookup that asks the source behind. -/
theorem answer {failure : Option StorageError} {now : Instant}
    {answer : Except KeyError (Option KeyVersion)} {rest : History ι}
    (h : Rotated i topic key since (history ++ ⟨.readText, failure⟩ :: ⟨.time i, now⟩ ::
      ⟨.encryptionKey i topic, answer⟩ :: rest)) (hlate : since ≤ now) : answer = .ok (some key) :=
  h.rotated now answer hlate ⟨history ++ [⟨.readText, failure⟩], rest, by simp⟩

end Rotated

/-! ## Entries -/

/-- An entry of the topic holds the key, or it expires no later than the limit. -/
def Fades (topic : String) (key : KeyVersion) (limit : Int) (e : CacheEntry) : Prop :=
  e.topic = topic → ∀ expiresAt, e.expiresAt = some expiresAt →
    expiresAt.IsProper ∧ (e.key.SameAs key ∨ expiresAt.place ≤ limit)

/-- All stored entries fade. -/
def AllFade (topic : String) (key : KeyVersion) (limit : Int) (text : Option String) : Prop :=
  ∀ e ∈ entriesOf text, Fades topic key limit e

/-- Where an entry is at the latest that was given its expiry before the instant. -/
def fadeLimit (caching : CachingOptions) (since : Instant) : Int := since.place + caching.lifetime

variable {limit : Int}

/-- Writing and reading again changes no expiry. -/
theorem Fades.reread {e e' : CacheEntry} (h : Fades topic key limit e)
    (hreread : reread? e = some e') : Fades topic key limit e' := by
  obtain ⟨hread, -, htopic, hkey⟩ := reread?_eq_some_iff.mp hreread
  obtain ⟨-, hexpiry⟩ := readExpiry?_eq_some_iff.mp hread
  intro he expiresAt hexpiresAt
  rw [hexpiry] at hexpiresAt
  obtain ⟨written, hwritten, rfl⟩ := Option.map_eq_some_iff.mp hexpiresAt
  obtain ⟨hproper, hfades⟩ := h (htopic ▸ he) written hwritten
  rw [Instant.carry_of_isProper hproper, hkey]
  exact ⟨hproper, hfades⟩

theorem AllFade.rewritten {text : Option String} (h : AllFade topic key limit text)
    {entries : List CacheEntry} (hentries : ∀ e ∈ entries, Fades topic key limit e) (maxChars : Nat)
    (stored : Bool × Except StorageError Unit) :
    AllFade topic key limit (rewritten text (storedText entries maxChars) stored) := by
  rcases rewritten_cases text (storedText entries maxChars) stored with hsame | hstored
  · rwa [hsame]
  · rw [AllFade, hstored, entriesOf_some]
    exact forall_mem_parse_storedText (fun _ _ => Fades.reread) hentries maxChars

/-! ## Lookups -/

variable {text : Option String} {history : History ι} {t : Place ι}

/-- An entry whose expiry a lookup sets fades, if it holds the new key whenever that is what the
source behind answers. -/
theorem Rotated.fades {failure : Option StorageError} {now : Instant} {asked : String}
    {answer : Except KeyError (Option KeyVersion)} {extra : Span} {rest : History ι}
    (h : Rotated i topic key since (history ++ ⟨.readText, failure⟩ :: ⟨.time i, now⟩ ::
      ⟨.encryptionKey i asked, answer⟩ :: ⟨.jitter i caching.maxJitter, extra⟩ :: rest))
    {e : CacheEntry} (hasked : e.topic = asked)
    (hexpiry : e.expiresAt = some (expiryAfter now caching.ttl extra))
    (hsame : answer = .ok (some key) → e.key.SameAs key) :
    Fades topic key (fadeLimit caching since) e := by
  rintro rfl expiresAt hexpiresAt
  obtain rfl := Option.some.inj (hexpiry.symm.trans hexpiresAt)
  subst hasked
  have htold : now.IsTold := h.isTold (List.mem_append_right _ (.tail _ (.head _)))
  refine ⟨isProper_expiryAfter htold.proper _ _, ?_⟩
  by_cases hlate : since ≤ now
  · exact .inl (hsame (h.answer hlate))
  · have hplace := Instant.place_mono (Instant.le_of_lt (Instant.not_le.mp hlate))
    have hlifetime := place_expiryAfter_le htold caching.ttl extra
    have hjitter := h.bounded caching.maxJitter extra
      (List.mem_append_right _ (.tail _ (.tail _ (.tail _ (.head _)))))
    refine .inr ?_
    rw [fadeLimit, CachingOptions.lifetime]
    omega

/-- A lookup of the key to encrypt under leaves entries that fade. -/
theorem EncryptionTurn.allFade {asked : String} {r : Except KeyError (Option KeyVersion)}
    (h : EncryptionTurn caching i asked text history r t)
    (hfade : AllFade topic key (fadeLimit caching since) text)
    (hrotated : Rotated i topic key since t.2) :
    AllFade topic key (fadeLimit caching since) t.1 := by
  have hloaded : ∀ failure, ∀ e ∈ loaded text failure,
      Fades topic key (fadeLimit caching since) e :=
    fun failure e he => hfade e ((loaded_sublist text failure).mem he)
  cases h with
  | served _ => exact hfade
  | ambiguous _ => exact hfade
  | unkeyed _ => exact hfade
  | failed _ _ => exact hfade
  | @fetched failure now newest found extra new stored hfind hnew =>
    subst hnew
    refine hfade.rewritten ?_ caching.maxChars stored
    rcases renew_eq (loaded text failure) newest asked found
      (expiryAfter now caching.ttl extra) with
      ⟨position, old, rfl, hold, hholds, hrenew⟩ | ⟨-, hrenew⟩ <;> rw [hrenew]
    · obtain ⟨e, he, hasked, -⟩ := exists_mem_of_newest? (newest?_eq_of_findEncryption hfind)
      refine forall_mem_extend (hloaded failure) fun e' he' => ?_
      obtain rfl := Option.some.inj (he.symm.trans he')
      obtain rfl := Option.some.inj (he.symm.trans hold)
      refine hrotated.fades hasked rfl fun hanswer => ?_
      obtain rfl : found = key := by simpa using hanswer
      exact CacheEntry.sameAs_of_holds hholds
    · refine List.forall_mem_append.mpr ⟨hloaded failure, List.forall_mem_singleton.mpr ?_⟩
      refine hrotated.fades rfl rfl fun hanswer => ?_
      obtain rfl : found = key := by simpa using hanswer
      exact ⟨rfl, Text.trim_trim _⟩
  | @bridged failure now position stale err extra new stored hfind _ hstale hnew =>
    subst hnew
    obtain ⟨e, he, hasked, -⟩ := exists_mem_of_newest? (newest?_eq_of_findEncryption hfind)
    refine hfade.rewritten (forall_mem_extend (hloaded failure) fun e' he' => ?_) caching.maxChars
      stored
    obtain rfl := Option.some.inj (he.symm.trans he')
    exact hrotated.fades hasked rfl fun hanswer => absurd hanswer (by simp)

/-- A lookup of an old key leaves entries that fade. -/
theorem DecryptionTurn.allFade {asked : String} {version : Version} {keyName : Option String}
    {r : Except KeyError String}
    (h : DecryptionTurn caching i asked version keyName text history r t)
    (hfade : AllFade topic key limit text) : AllFade topic key limit t.1 := by
  cases h with
  | served _ => exact hfade
  | ambiguous _ => exact hfade
  | failed _ => exact hfade
  | @fetched failure material new stored _ hnew =>
    subst hnew
    refine hfade.rewritten (List.forall_mem_append.mpr ⟨fun e he =>
      hfade e ((loaded_sublist text failure).mem he), List.forall_mem_singleton.mpr ?_⟩)
      caching.maxChars stored
    exact fun _ expiresAt hexpiry => absurd hexpiry (Option.some_ne_none expiresAt).symm

/-- **A lookup gives the new key, or it is made before the last entry has faded.** -/
theorem EncryptionTurn.sameAs_or_lt {answer : Option KeyVersion}
    (h : EncryptionTurn caching i topic text history (.ok answer) t)
    (hfade : AllFade topic key (fadeLimit caching since) text)
    (hrotated : Rotated i topic key since t.2) :
    (∃ found, answer = some found ∧ found.SameAs key) ∨
      ∃ now bound, Said (text, history) t ⟨.time i, now⟩ ∧ now < bound ∧
        bound.place ≤ fadeLimit caching since := by
  have hsince : since.place ≤ fadeLimit caching since := by
    rw [fadeLimit]
    omega
  cases h with
  | @served failure now found hfind =>
    obtain ⟨e, he, rfl⟩ := exists_mem_of_findEncryption hfind
    obtain ⟨hmem, htopic, henc, hlive⟩ := mem_liveEntries.mp he
    obtain ⟨expiresAt, hexpiry⟩ := Option.isSome_iff_exists.mp henc
    obtain ⟨-, hfades⟩ := hfade e ((loaded_sublist text failure).mem hmem) htopic expiresAt hexpiry
    refine hfades.imp (fun hsame => ⟨e.key, rfl, hsame⟩) fun hlimit =>
      ⟨now, expiresAt, ⟨_, rfl, .tail _ (.head _)⟩, Instant.not_le.mp ?_, hlimit⟩
    rw [CacheEntry.isExpiredAt, hexpiry] at hlive
    simpa using hlive
  | @unkeyed failure now newest hfind =>
    by_cases hlate : since ≤ now
    · exact absurd (hrotated.answer hlate) (by simp)
    · exact .inr ⟨now, since, ⟨_, rfl, .tail _ (.head _)⟩, Instant.not_le.mp hlate, hsince⟩
  | @fetched failure now newest found extra new stored hfind hnew =>
    by_cases hlate : since ≤ now
    · obtain rfl : found = key := by simpa using hrotated.answer hlate
      exact .inl ⟨found, rfl, rfl, rfl⟩
    · exact .inr ⟨now, since, ⟨_, rfl, .tail _ (.head _)⟩, Instant.not_le.mp hlate, hsince⟩
  | @bridged failure now position stale err extra new stored hfind _ hstale hnew =>
    by_cases hlate : since ≤ now
    · exact absurd (hrotated.answer hlate) (by simp)
    · exact .inr ⟨now, since, ⟨_, rfl, .tail _ (.head _)⟩, Instant.not_le.mp hlate, hsince⟩

end Shared

end TopicCipher
