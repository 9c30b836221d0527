import TopicCipher.Proofs.Answers
import TopicCipher.Proofs.Dialogue
import TopicCipher.Proofs.KeyCache.FaultyStorage
import TopicCipher.Proofs.KeyCache.Lookups

/-!
# Caches that share a storage

Any number of key caches may stand in front of one storage, each with its own source behind it, its
own settings, clock and jitter.  They work one lookup at a time.  Only the stored text is theirs;
everything else is up to the outside: what the sources answer, what the clocks say, when the storage
fails, and whether a text that was not acknowledged was stored.  All of that are questions, so a
statement about all histories is a statement about all sources, clocks and failures.

A lookup is a conversation with the outside.  `EncryptionTurn` and `DecryptionTurn` say word for
word how it can go: what is asked in which order, what the cache answers, and which text it leaves
behind.

* `encryptionTurn_of_gives`, `decryptionTurn_of_gives`: every lookup is such a conversation, and
  each of them is a lookup (`EncryptionTurn.gives`, `DecryptionTurn.gives`).
* `gives_clear`: so is forgetting everything.
-/

namespace TopicCipher

/-- What can be looked up in a key cache. -/
inductive Lookup where
  | encryption (topic : String)
  | decryption (topic : String) (version : Version) (keyName : Option String)
  deriving DecidableEq

namespace Lookup

/-- The topic whose key is looked up. -/
def topic : Lookup → String
  | encryption topic => topic
  | decryption topic _ _ => topic

/-- Holds of lookups of the key to encrypt under. -/
def isEncryption : Lookup → Bool
  | encryption _ => true
  | decryption _ _ _ => false

end Lookup

namespace Shared

open KeyCache (loaded)

variable {ι : Type}

/-! ## The outside -/

/-- What caches with names of type `ι` ask the outside; the last question is that of an engine in
front of a cache. -/
inductive Question (ι : Type) where
  | readText
  | writeText (text : String)
  | time (i : ι)
  | jitter (i : ι) (bound : Span)
  | encryptionKey (i : ι) (topic : String)
  | decryptionKey (i : ι) (topic : String) (version : Version) (keyName : Option String)
  | vector (i : ι)

/-- How the outside may answer. -/
abbrev Answer : Question ι → Type
  /- Why the stored text cannot be read, if it cannot. -/
  | .readText => Option StorageError
  /- Whether the text was stored, and what the storage says about it. -/
  | .writeText _ => Bool × Except StorageError Unit
  | .time _ => Instant
  | .jitter _ _ => Span
  | .encryptionKey _ _ => Except KeyError (Option KeyVersion)
  | .decryptionKey _ _ _ _ => Except KeyError String
  | .vector _ => Except String Bytes

/-- All that was asked so far, with the answers. -/
abbrev History (ι : Type) := List (Exchange (Question ι) Answer)

/-- What a clock told, if a clock was read. -/
def reading? : Exchange (Question ι) Answer → Option Instant
  | ⟨.time _, now⟩ => some now
  | _ => none

/-- All that the clocks told. -/
def readings (history : History ι) : List Instant := history.filterMap reading?

/-- Computations that ask the outside and keep a text. -/
abbrev Outside (ι : Type) := StateT (Option String) (Dialogue (Question ι) Answer)

/-- A place: the stored text and the history. -/
abbrev Place (ι : Type) := Option String × History ι

/-- Nothing is stored, and nothing was said. -/
def fresh : Place ι := (none, [])

/-- Between two places, something was said. -/
def Said (s t : Place ι) (exchange : Exchange (Question ι) Answer) : Prop :=
  Dialogue.Said s.2 t.2 exchange

@[simp] theorem said_append_iff {text new : Option String} {history said : History ι}
    {exchange : Exchange (Question ι) Answer} :
    Said (text, history) (new, history ++ said) exchange ↔ exchange ∈ said :=
  Dialogue.said_append_iff

/-- The storage of the caches. -/
def storage : FaultyStorage (Option String) (Dialogue (Question ι) Answer) where
  failure := .question Question.readText
  attempt text := .question (Question.writeText text)
  kept text := text
  keep text _ := some text

/-- The clock and the jitter of a cache. -/
def timing (i : ι) : Timing (Outside ι) where
  now := ask (Question.time i)
  jitter bound := ask (Question.jitter i bound)

/-- The source behind a cache. -/
def source (i : ι) : KeySource (Outside ι) where
  encryptionKey topic := ask (Question.encryptionKey i topic)
  decryptionKey topic version keyName := ask (Question.decryptionKey i topic version keyName)

/-- A cache in front of the storage. -/
def cache (options : CachingOptions) (i : ι) : CachedKeys (Outside ι) :=
  ⟨source i, storage.storage, timing i, options⟩

/-- Looks a key up; an old key is answered with its version and name. -/
def lookUp (options : CachingOptions) (i : ι) :
    Lookup → Outside ι (Except KeyError (Option KeyVersion))
  | .encryption topic => (cache options i).encryptionKey topic
  | .decryption topic version keyName => do
    return (← (cache options i).decryptionKey topic version keyName).map fun material =>
      some ⟨version, keyName, material⟩

/-- What the users of the caches may do. -/
inductive Call (ι : Type) where
  | lookUp (i : ι) (lookup : Lookup)
  | clear (i : ι)

/-- Makes a call and leaves its answer alone. -/
def perform (options : ι → CachingOptions) : Call ι → Outside ι Unit
  | .lookUp i lookup => do let _ ← lookUp (options i) i lookup
  | .clear i => (cache (options i) i).clear

/-! ## What is loaded and stored -/

/-- The stored text after an attempt to store another one. -/
def rewritten (text : Option String) (new : String) (answer : Bool × Except StorageError Unit) :
    Option String :=
  if answer.1 then some new else text

variable {options : CachingOptions} {i : ι}

theorem gives_load {s t : Place ι} {entries : List CacheEntry} :
    Gives (cache options i).load s entries t ↔
      ∃ failure, entries = loaded s.1 failure ∧ t = (s.1, s.2 ++ [⟨.readText, failure⟩]) := by
  rw [CachedKeys.gives_load]
  constructor
  · rintro ⟨_, hread, rfl⟩
    obtain ⟨failure, hasked, hsame, rfl⟩ := FaultyStorage.gives_read.mp hread
    exact ⟨failure, KeyCache.entriesOf_read _ _,
      Prod.ext hsame (Dialogue.gives_question.mp hasked)⟩
  · rintro ⟨failure, rfl, rfl⟩
    exact ⟨_, FaultyStorage.gives_read.mpr ⟨failure, Dialogue.gives_question.mpr rfl, rfl, rfl⟩,
      (KeyCache.entriesOf_read _ _).symm⟩

theorem gives_write {s t : Place ι} {new : String} :
    Gives ((cache options i).write new) s () t ↔
      ∃ answer, t = (rewritten s.1 new answer, s.2 ++ [⟨.writeText new, answer⟩]) := by
  rw [CachedKeys.gives_write]
  constructor
  · rintro ⟨_, hwrite⟩
    obtain ⟨answer, hasked, hkept, -⟩ := FaultyStorage.gives_write.mp hwrite
    exact ⟨answer, Prod.ext hkept (Dialogue.gives_question.mp hasked)⟩
  · rintro ⟨answer, rfl⟩
    exact ⟨answer.2, FaultyStorage.gives_write.mpr
      ⟨answer, Dialogue.gives_question.mpr rfl, rfl, rfl⟩⟩

theorem gives_expiry {s t : Place ι} {now expiresAt : Instant} {ttl bound : Span} :
    Gives ((timing i).expiry now ttl bound) s expiresAt t ↔
      ∃ extra, expiresAt = expiryAfter now ttl extra ∧
        t = (s.1, s.2 ++ [⟨.jitter i bound, extra⟩]) :=
  Timing.gives_expiry.trans (exists_congr fun _ => and_congr_right fun _ => gives_ask)

/-! ## Conversations -/

/-- How a lookup of the key to encrypt under can go, begun with the given text and history. -/
inductive EncryptionTurn (options : CachingOptions) (i : ι) (topic : String) (text : Option String)
    (history : History ι) : Except KeyError (Option KeyVersion) → Place ι → Prop where
  | served {failure : Option StorageError} {now : Instant} {key : KeyVersion}
      (hfind : KeyCache.findEncryption (loaded text failure) topic now = .served key) :
      EncryptionTurn options i topic text history (.ok (some key))
        (text, history ++ [⟨.readText, failure⟩, ⟨.time i, now⟩])
  | ambiguous {failure : Option StorageError} {now : Instant} {candidates : Nat}
      (hfind : KeyCache.findEncryption (loaded text failure) topic now = .ambiguous candidates) :
      EncryptionTurn options i topic text history (.error (.ambiguity topic candidates))
        (text, history ++ [⟨.readText, failure⟩, ⟨.time i, now⟩])
  | unkeyed {failure : Option StorageError} {now : Instant} {newest : Option Nat}
      (hfind : KeyCache.findEncryption (loaded text failure) topic now = .expired newest) :
      EncryptionTurn options i topic text history (.ok none)
        (text, history ++
          [⟨.readText, failure⟩, ⟨.time i, now⟩, ⟨.encryptionKey i topic, .ok none⟩])
  | failed {failure : Option StorageError} {now : Instant} {newest : Option Nat} {err : KeyError}
      (hfind : KeyCache.findEncryption (loaded text failure) topic now = .expired newest)
      (hlost : newest.bind ((loaded text failure)[·]?) = none ∨ err.isOutage = false) :
      EncryptionTurn options i topic text history (.error err)
        (text, history ++
          [⟨.readText, failure⟩, ⟨.time i, now⟩, ⟨.encryptionKey i topic, .error err⟩])
  | fetched {failure : Option StorageError} {now : Instant} {newest : Option Nat} {key : KeyVersion}
      {extra : Span} {new : String} {stored : Bool × Except StorageError Unit}
      (hfind : KeyCache.findEncryption (loaded text failure) topic now = .expired newest)
      (hnew : new = KeyCache.storedText (KeyCache.renew (loaded text failure) newest topic key
        (expiryAfter now options.ttl extra)) options.maxChars) :
      EncryptionTurn options i topic text history (.ok (some key))
        (rewritten text new stored, history ++
          [⟨.readText, failure⟩, ⟨.time i, now⟩, ⟨.encryptionKey i topic, .ok (some key)⟩,
            ⟨.jitter i options.maxJitter, extra⟩, ⟨.writeText new, stored⟩])
  | bridged {failure : Option StorageError} {now : Instant} {position : Nat} {stale : CacheEntry}
      {err : KeyError} {extra : Span} {new : String} {stored : Bool × Except StorageError Unit}
      (hfind : KeyCache.findEncryption (loaded text failure) topic now = .expired (some position))
      (houtage : err.isOutage = true) (hstale : (loaded text failure)[position]? = some stale)
      (hnew : new = KeyCache.storedText (KeyCache.extend (loaded text failure) position
        (expiryAfter now options.ttl extra)) options.maxChars) :
      EncryptionTurn options i topic text history (.ok (some stale.key))
        (rewritten text new stored, history ++
          [⟨.readText, failure⟩, ⟨.time i, now⟩, ⟨.encryptionKey i topic, .error err⟩,
            ⟨.jitter i options.maxJitter, extra⟩, ⟨.writeText new, stored⟩])

/-- Every lookup of a key to encrypt under is one of the six conversations. -/
theorem encryptionTurn_of_gives {topic : String} {text : Option String} {history : History ι}
    {r : Except KeyError (Option KeyVersion)} {t : Place ι}
    (h : Gives ((cache options i).encryptionKey topic) (text, history) r t) :
    EncryptionTurn options i topic text history r t := by
  cases CachedKeys.encryptionLookup_of_gives h with
  | served hload hnow hfind =>
    obtain ⟨failure, rfl, rfl⟩ := gives_load.mp hload
    obtain rfl := gives_ask.mp hnow
    rw [List.append_assoc]
    exact .served hfind
  | ambiguous hload hnow hfind =>
    obtain ⟨failure, rfl, rfl⟩ := gives_load.mp hload
    obtain rfl := gives_ask.mp hnow
    rw [List.append_assoc]
    exact .ambiguous hfind
  | unkeyed hload hnow hfind hasked =>
    obtain ⟨failure, rfl, rfl⟩ := gives_load.mp hload
    obtain rfl := gives_ask.mp hnow
    obtain rfl := gives_ask.mp hasked
    simp only [List.append_assoc]
    exact .unkeyed hfind
  | failed hload hnow hfind hasked hlost =>
    obtain ⟨failure, rfl, rfl⟩ := gives_load.mp hload
    obtain rfl := gives_ask.mp hnow
    obtain rfl := gives_ask.mp hasked
    simp only [List.append_assoc]
    exact .failed hfind hlost
  | fetched hload hnow hfind hasked hexpiry hpersist =>
    obtain ⟨failure, rfl, rfl⟩ := gives_load.mp hload
    obtain rfl := gives_ask.mp hnow
    obtain rfl := gives_ask.mp hasked
    obtain ⟨extra, rfl, rfl⟩ := gives_expiry.mp hexpiry
    obtain ⟨stored, rfl⟩ := gives_write.mp hpersist
    simp only [List.append_assoc]
    exact .fetched hfind rfl
  | bridged hload hnow hfind hasked houtage hstale hexpiry hpersist =>
    obtain ⟨failure, rfl, rfl⟩ := gives_load.mp hload
    obtain rfl := gives_ask.mp hnow
    obtain rfl := gives_ask.mp hasked
    obtain ⟨extra, rfl, rfl⟩ := gives_expiry.mp hexpiry
    obtain ⟨stored, rfl⟩ := gives_write.mp hpersist
    simp only [List.append_assoc]
    exact .bridged hfind houtage hstale rfl

/-- Each of the six conversations is a lookup of a key to encrypt under. -/
theorem EncryptionTurn.gives {topic : String} {text : Option String} {history : History ι}
    {r : Except KeyError (Option KeyVersion)} {t : Place ι}
    (h : EncryptionTurn options i topic text history r t) :
    Gives ((cache options i).encryptionKey topic) (text, history) r t := by
  apply CachedKeys.EncryptionLookup.gives
  cases h with
  | served hfind =>
    rw [List.append_cons]
    exact .served (gives_load.mpr ⟨_, rfl, rfl⟩) (gives_ask.mpr rfl) hfind
  | ambiguous hfind =>
    rw [List.append_cons]
    exact .ambiguous (gives_load.mpr ⟨_, rfl, rfl⟩) (gives_ask.mpr rfl) hfind
  | unkeyed hfind =>
    rw [List.append_cons, List.append_cons]
    exact .unkeyed (gives_load.mpr ⟨_, rfl, rfl⟩) (gives_ask.mpr rfl) hfind (gives_ask.mpr rfl)
  | failed hfind hlost =>
    rw [List.append_cons, List.append_cons]
    exact .failed (gives_load.mpr ⟨_, rfl, rfl⟩) (gives_ask.mpr rfl) hfind (gives_ask.mpr rfl) hlost
  | fetched hfind hnew =>
    subst hnew
    rw [List.append_cons, List.append_cons, List.append_cons, List.append_cons]
    exact .fetched (gives_load.mpr ⟨_, rfl, rfl⟩) (gives_ask.mpr rfl) hfind (gives_ask.mpr rfl)
      (gives_expiry.mpr ⟨_, rfl, rfl⟩) (gives_write.mpr ⟨_, rfl⟩)
  | bridged hfind houtage hstale hnew =>
    subst hnew
    rw [List.append_cons, List.append_cons, List.append_cons, List.append_cons]
    exact .bridged (gives_load.mpr ⟨_, rfl, rfl⟩) (gives_ask.mpr rfl) hfind
      (gives_ask.mpr rfl) houtage hstale (gives_expiry.mpr ⟨_, rfl, rfl⟩) (gives_write.mpr ⟨_, rfl⟩)

/-- How a lookup of an old key can go, begun with the given text and history. -/
inductive DecryptionTurn (options : CachingOptions) (i : ι) (topic : String) (version : Version)
    (keyName : Option String) (text : Option String) (history : History ι) :
    Except KeyError String → Place ι → Prop where
  | served {failure : Option StorageError} {material : String}
      (hfind : KeyCache.findDecryption (loaded text failure) topic version keyName =
        .served material) :
      DecryptionTurn options i topic version keyName text history (.ok material)
        (text, history ++ [⟨.readText, failure⟩])
  | ambiguous {failure : Option StorageError} {candidates : Nat}
      (hfind : KeyCache.findDecryption (loaded text failure) topic version keyName =
        .ambiguous candidates) :
      DecryptionTurn options i topic version keyName text history
        (.error (.ambiguity topic candidates)) (text, history ++ [⟨.readText, failure⟩])
  | failed {failure : Option StorageError} {err : KeyError}
      (hfind : KeyCache.findDecryption (loaded text failure) topic version keyName = .absent) :
      DecryptionTurn options i topic version keyName text history (.error err)
        (text, history ++
          [⟨.readText, failure⟩, ⟨.decryptionKey i topic version keyName, .error err⟩])
  | fetched {failure : Option StorageError} {material new : String}
      {stored : Bool × Except StorageError Unit}
      (hfind : KeyCache.findDecryption (loaded text failure) topic version keyName = .absent)
      (hnew : new = KeyCache.storedText
        (loaded text failure ++ [.forDecryption topic version keyName material]) options.maxChars) :
      DecryptionTurn options i topic version keyName text history (.ok material)
        (rewritten text new stored, history ++
          [⟨.readText, failure⟩, ⟨.decryptionKey i topic version keyName, .ok material⟩,
            ⟨.writeText new, stored⟩])

/-- Every lookup of an old key is one of the four conversations. -/
theorem decryptionTurn_of_gives {topic : String} {version : Version} {keyName : Option String}
    {text : Option String} {history : History ι} {r : Except KeyError String} {t : Place ι}
    (h : Gives ((cache options i).decryptionKey topic version keyName) (text, history) r t) :
    DecryptionTurn options i topic version keyName text history r t := by
  cases CachedKeys.decryptionLookup_of_gives h with
  | served hload hfind =>
    obtain ⟨failure, rfl, rfl⟩ := gives_load.mp hload
    exact .served hfind
  | ambiguous hload hfind =>
    obtain ⟨failure, rfl, rfl⟩ := gives_load.mp hload
    exact .ambiguous hfind
  | failed hload hfind hasked =>
    obtain ⟨failure, rfl, rfl⟩ := gives_load.mp hload
    obtain rfl := gives_ask.mp hasked
    rw [List.append_assoc]
    exact .failed hfind
  | fetched hload hfind hasked hpersist =>
    obtain ⟨failure, rfl, rfl⟩ := gives_load.mp hload
    obtain rfl := gives_ask.mp hasked
    obtain ⟨stored, rfl⟩ := gives_write.mp hpersist
    simp only [List.append_assoc]
    exact .fetched hfind rfl

/-- Each of the four conversations is a lookup of an old key. -/
theorem DecryptionTurn.gives {topic : String} {version : Version} {keyName : Option String}
    {text : Option String} {history : History ι} {r : Except KeyError String} {t : Place ι}
    (h : DecryptionTurn options i topic version keyName text history r t) :
    Gives ((cache options i).decryptionKey topic version keyName) (text, history) r t := by
  apply CachedKeys.DecryptionLookup.gives
  cases h with
  | served hfind => exact .served (gives_load.mpr ⟨_, rfl, rfl⟩) hfind
  | ambiguous hfind => exact .ambiguous (gives_load.mpr ⟨_, rfl, rfl⟩) hfind
  | failed hfind =>
    rw [List.append_cons]
    exact .failed (gives_load.mpr ⟨_, rfl, rfl⟩) hfind (gives_ask.mpr rfl)
  | @fetched failure material new _ hfind hnew =>
    have hload : Gives (cache options i).load (text, history) (loaded text failure) _ :=
      gives_load.mpr ⟨failure, rfl, rfl⟩
    have hpersist : (cache options i).persist (loaded text failure ++
        [.forDecryption topic version keyName material]) = (cache options i).write new := by
      rw [hnew]
      rfl
    rw [List.append_cons, List.append_cons]
    refine .fetched hload hfind (gives_ask.mpr rfl) ?_
    rw [hpersist]
    exact gives_write.mpr ⟨_, rfl⟩

/-- Forgetting everything is an attempt to store the text without entries. -/
theorem gives_clear {s t : Place ι} :
    Gives (cache options i).clear s () t ↔
      ∃ answer, t = (rewritten s.1 KeyCache.empty answer,
        s.2 ++ [⟨.writeText KeyCache.empty, answer⟩]) :=
  gives_write

/-- A lookup of an old key is one of the cache, and the answer gets its version and name. -/
theorem gives_lookUp_decryption {topic : String} {version : Version} {keyName : Option String}
    {r : Except KeyError (Option KeyVersion)} {s t : Place ι} :
    Gives (lookUp options i (.decryption topic version keyName)) s r t ↔
      ∃ found, r = found.map (fun material => some ⟨version, keyName, material⟩) ∧
        Gives ((cache options i).decryptionKey topic version keyName) s found t :=
  gives_bind_pure

/-- A call that looks a key up is a lookup whose answer is left alone. -/
theorem gives_perform_lookUp {options : ι → CachingOptions} {lookup : Lookup} {s t : Place ι} :
    Gives (perform options (.lookUp i lookup)) s () t ↔
      ∃ r, Gives (lookUp (options i) i lookup) s r t :=
  gives_bind_unit

end Shared

end TopicCipher
