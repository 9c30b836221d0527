import Mathlib.Data.List.Basic
import TopicCipher.KeyCache.Source
import TopicCipher.Proofs.Time.Instant
import TopicCipher.Proofs.Watched

/-!
# What a key cache can do

A lookup loads the stored entries, decides by them, perhaps asks the source behind, and perhaps
stores entries.  The decisions are pure, so this module first says what a decision means for the
entries it was made by, and then lists the ways in which a lookup can go.

* `exists_mem_of_findEncryption`, `exists_mem_of_newest?`, `exists_mem_of_findDecryption`: what is
  served was stored for the topic.
* `forall_mem_renew`, `forall_mem_extend`: an update keeps what holds of all entries.
* `encryptionLookup_of_gives`, `decryptionLookup_of_gives`: the two lookups, and that each way is
  one in which they can go (`EncryptionLookup.gives`, `DecryptionLookup.gives`).
-/

namespace TopicCipher

namespace KeyCache

variable {entries : List CacheEntry} {topic : String} {now : Instant}

/-! ## Decisions -/

theorem mem_liveEntries {e : CacheEntry} :
    e ∈ liveEntries entries topic now ↔
      e ∈ entries ∧ e.topic = topic ∧ e.isEncryption = true ∧ e.isExpiredAt now = false := by
  simp only [liveEntries, List.mem_filter, Bool.and_eq_true, decide_eq_true_eq,
    Bool.not_eq_eq_eq_not, Bool.not_true, and_assoc]

/-- The key that is served is that of a live encryption entry of the topic. -/
theorem exists_mem_of_findEncryption {key : KeyVersion}
    (h : findEncryption entries topic now = .served key) :
    ∃ e ∈ liveEntries entries topic now, e.key = key := by
  rw [findEncryption] at h
  split at h
  next => exact absurd h (by simp)
  next e he => exact ⟨e, by rw [he]; exact List.mem_singleton_self e, by simpa using h⟩
  next => exact absurd h (by simp)

theorem newest?_eq_of_findEncryption {newest : Option Nat}
    (h : findEncryption entries topic now = .expired newest) : newest? entries topic = newest := by
  rw [findEncryption] at h
  split at h
  next => simpa using h
  next => exact absurd h (by simp)
  next => exact absurd h (by simp)

/-- The source behind is only asked when no entry of the topic is live. -/
theorem liveEntries_eq_nil_of_findEncryption {newest : Option Nat}
    (h : findEncryption entries topic now = .expired newest) :
    liveEntries entries topic now = [] := by
  rw [findEncryption] at h
  split at h
  next hnone => exact hnone
  next => exact absurd h (by simp)
  next => exact absurd h (by simp)

/-- A contradiction is found between two live entries at least. -/
theorem two_le_length_of_findEncryption {candidates : Nat}
    (h : findEncryption entries topic now = .ambiguous candidates) :
    2 ≤ (liveEntries entries topic now).length := by
  rw [findEncryption] at h
  split at h
  next => exact absurd h (by simp)
  next => exact absurd h (by simp)
  next hnone hone =>
    rcases hlive : liveEntries entries topic now with _ | ⟨first, _ | ⟨second, rest⟩⟩
    · exact absurd hlive hnone
    · exact absurd hlive (hone first)
    · exact Nat.le_add_left 2 rest.length

/-- What has expired stays expired. -/
theorem isExpiredAt_of_le {e : CacheEntry} {later : Instant}
    (h : e.isExpiredAt now = true) (hle : now ≤ later) : e.isExpiredAt later = true := by
  obtain ⟨expiresAt, hexpiry, hexpired⟩ := (Option.any_eq_true _ _).mp h
  exact (Option.any_eq_true _ _).mpr
    ⟨expiresAt, hexpiry, decide_eq_true (Instant.le_trans (of_decide_eq_true hexpired) hle)⟩

/-- As time goes on, live entries only become fewer. -/
theorem liveEntries_sublist_of_le (entries : List CacheEntry) (topic : String) {later : Instant}
    (hle : now ≤ later) :
    (liveEntries entries topic later).Sublist (liveEntries entries topic now) := by
  refine List.monotone_filter_right entries fun e he => ?_
  rw [Bool.and_eq_true, Bool.not_eq_eq_eq_not, Bool.not_true] at he ⊢
  refine ⟨he.1, Bool.eq_false_iff.mpr fun hexpired => ?_⟩
  rw [isExpiredAt_of_le hexpired hle] at he
  exact absurd he.2.symm Bool.false_ne_true

theorem liveEntries_eq_nil_of_le {later : Instant} (h : liveEntries entries topic now = [])
    (hle : now ≤ later) : liveEntries entries topic later = [] :=
  List.sublist_nil.mp (h ▸ liveEntries_sublist_of_le entries topic hle)

/-- A choice between the best so far and the next candidate gives a candidate in the end. -/
theorem mem_of_foldl_choice {α : Type} {choose : Option α → α → Option α}
    (hchoose : ∀ best a, choose best a = some a ∨ choose best a = best) {l : List α}
    {start : Option α} {a : α} (h : l.foldl choose start = some a) : start = some a ∨ a ∈ l := by
  induction l generalizing start with
  | nil => exact .inl h
  | cons b l ih =>
    rcases ih h with hstart | hmem
    · rcases hchoose start b with hb | hb <;> rw [hb] at hstart
      · exact .inr (List.mem_cons.mpr (.inl (Option.some.inj hstart).symm))
      · exact .inl hstart
    · exact .inr (List.mem_cons_of_mem b hmem)

/-- The best entry to serve during an outage is an encryption entry of the topic. -/
theorem exists_mem_of_newest? {position : Nat} (h : newest? entries topic = some position) :
    ∃ e, entries[position]? = some e ∧ e.topic = topic ∧ e.isEncryption = true := by
  rw [newest?, Option.map_eq_some_iff] at h
  obtain ⟨⟨e, i⟩, hfold, rfl⟩ := h
  have hchoice := mem_of_foldl_choice (fun best candidate => ?_) hfold
  · rcases hchoice with h | h
    · exact absurd h (by simp)
    · rw [List.mem_filter, Bool.and_eq_true, decide_eq_true_eq] at h
      obtain ⟨hmem, htopic, henc⟩ := h
      exact ⟨e, List.mem_zipIdx_iff_getElem?.mp hmem, htopic, henc⟩
  · rcases best with _ | current
    · exact .inl rfl
    · by_cases hbetter : isNotBetter current.1 candidate.1 = true
      · exact .inl (if_pos hbetter)
      · exact .inr (if_neg hbetter)

/-- The material that is served is that of an entry of just the old key that was asked for. -/
theorem exists_mem_of_findDecryption {version : Version} {keyName : Option String}
    {material : String} (h : findDecryption entries topic version keyName = .served material) :
    ∃ e ∈ entries, e.isEncryption = false ∧ e.topic = topic ∧
      e.key = ⟨version, keyName, material⟩ := by
  rw [findDecryption] at h
  split at h
  next => exact absurd h (by simp)
  next first rest hfound =>
    have hmem : first ∈ first :: rest := List.mem_cons_self
    rw [← hfound, List.mem_filter] at hmem
    simp only [Bool.and_eq_true, decide_eq_true_eq, Bool.not_eq_eq_eq_not, Bool.not_true] at hmem
    obtain ⟨hmem, ⟨⟨henc, htopic⟩, hversion⟩, hname⟩ := hmem
    split at h
    next => exact absurd h (by simp)
    next =>
      obtain rfl : first.key.material = material := by simpa using h
      exact ⟨first, hmem, henc, htopic, by rw [← hversion, ← hname]⟩

/-- Entries of one old key that all have the same material are not ambiguous. -/
theorem findDecryption_ne_ambiguous {version : Version} {keyName : Option String}
    {material : String}
    (h : ∀ e ∈ entries, e.isEncryption = false → e.topic = topic → e.key.version = version →
      e.key.keyName = keyName → e.key.material = material) (candidates : Nat) :
    findDecryption entries topic version keyName ≠ .ambiguous candidates := by
  intro hfind
  rw [findDecryption] at hfind
  split at hfind
  next => exact absurd hfind (by simp)
  next first rest hfound =>
    have hall : ∀ e ∈ first :: rest, e.key.material = material := by
      intro e he
      rw [← hfound, List.mem_filter] at he
      simp only [Bool.and_eq_true, decide_eq_true_eq, Bool.not_eq_eq_eq_not, Bool.not_true] at he
      obtain ⟨hmem, ⟨⟨henc, htopic⟩, hversion⟩, hname⟩ := he
      exact h e hmem henc htopic hversion hname
    split at hfind
    next hany =>
      obtain ⟨e, he, hne⟩ := List.any_eq_true.mp hany
      rw [hall e (List.mem_cons_of_mem first he), hall first List.mem_cons_self] at hne
      exact absurd hne (by simp)
    next => exact absurd hfind (by simp)

/-! ## Updates -/

/-- Extending the life of one entry keeps what holds of all entries, if the longer life does. -/
theorem forall_mem_extend {V : CacheEntry → Prop} {position : Nat} {expiresAt : Instant}
    (hentries : ∀ e ∈ entries, V e)
    (hlonger : ∀ e, entries[position]? = some e → V { e with expiresAt := some expiresAt }) :
    ∀ e ∈ extend entries position expiresAt, V e := by
  intro e he
  obtain ⟨i, hi⟩ := List.mem_iff_getElem?.mp he
  rw [extend, List.getElem?_modify] at hi
  obtain ⟨old, hold, rfl⟩ := Option.map_eq_some_iff.mp hi
  split
  next hposition => exact hlonger old (by rw [hposition]; exact hold)
  next => exact hentries old (List.mem_of_getElem? hold)

/-- Renewing extends the life of the best expired entry, if that holds the key, or else adds an
entry. -/
theorem renew_eq (entries : List CacheEntry) (newest : Option Nat) (topic : String)
    (key : KeyVersion) (expiresAt : Instant) :
    (∃ position e, newest = some position ∧ entries[position]? = some e ∧ e.holds key = true ∧
      renew entries newest topic key expiresAt = extend entries position expiresAt) ∨
    (∀ e, newest.bind (entries[·]?) = some e → e.holds key = false) ∧
      renew entries newest topic key expiresAt =
        entries ++ [.forEncryption topic key expiresAt] := by
  rcases newest with _ | position
  · exact .inr ⟨fun e he => absurd he.symm (Option.some_ne_none e), rfl⟩
  · by_cases hholds : entries[position]?.any (·.holds key)
    · obtain ⟨e, he, hkey⟩ := (Option.any_eq_true _ _).mp hholds
      exact .inl ⟨position, e, rfl, he, hkey, if_pos hholds⟩
    · refine .inr ⟨fun e he => Bool.eq_false_iff.mpr fun hkey => hholds ?_, if_neg hholds⟩
      exact (Option.any_eq_true _ _).mpr ⟨e, he, hkey⟩

/-- Renewing keeps what holds of all entries, if the longer life and the new entry do. -/
theorem forall_mem_renew {V : CacheEntry → Prop} {newest : Option Nat} {key : KeyVersion}
    {expiresAt : Instant} (hentries : ∀ e ∈ entries, V e)
    (hlonger : ∀ position e, newest = some position → entries[position]? = some e →
      V { e with expiresAt := some expiresAt })
    (hnew : V (.forEncryption topic key expiresAt)) :
    ∀ e ∈ renew entries newest topic key expiresAt, V e := by
  have happend : ∀ e ∈ entries ++ [.forEncryption topic key expiresAt], V e := by
    intro e he
    rcases List.mem_append.mp he with he | he
    · exact hentries e he
    · rw [List.mem_singleton.mp he]
      exact hnew
  unfold renew
  split
  next => exact happend
  next position =>
    split
    · exact forall_mem_extend hentries (hlonger position · rfl)
    · exact happend

end KeyCache

namespace CachedKeys

variable {m : Type → Type} [Monad m] {P : Type} [Watched m P]

/-! ## Lookups -/

/-- The ways in which a lookup of the key to encrypt under can go. -/
inductive EncryptionLookup (k : CachedKeys m) (topic : String) :
    P → Except KeyError (Option KeyVersion) → P → Prop where
  /-- There is one live entry. -/
  | served {s p q : P} {entries : List CacheEntry} {now : Instant} {key : KeyVersion}
      (hload : Gives k.load s entries p) (hnow : Gives k.timing.now p now q)
      (hfind : KeyCache.findEncryption entries topic now = .served key) :
      EncryptionLookup k topic s (.ok (some key)) q
  /-- The live entries contradict each other. -/
  | ambiguous {s p q : P} {entries : List CacheEntry} {now : Instant} {candidates : Nat}
      (hload : Gives k.load s entries p) (hnow : Gives k.timing.now p now q)
      (hfind : KeyCache.findEncryption entries topic now = .ambiguous candidates) :
      EncryptionLookup k topic s (.error (.ambiguity topic candidates)) q
  /-- The source behind says that the topic is not encrypted. -/
  | unkeyed {s p q t : P} {entries : List CacheEntry} {now : Instant} {newest : Option Nat}
      (hload : Gives k.load s entries p) (hnow : Gives k.timing.now p now q)
      (hfind : KeyCache.findEncryption entries topic now = .expired newest)
      (hasked : Gives (k.inner.encryptionKey topic) q (.ok none) t) :
      EncryptionLookup k topic s (.ok none) t
  /-- The source behind answers, and its answer is stored. -/
  | fetched {s p q t u v : P} {entries : List CacheEntry} {now expiresAt : Instant}
      {newest : Option Nat} {key : KeyVersion}
      (hload : Gives k.load s entries p) (hnow : Gives k.timing.now p now q)
      (hfind : KeyCache.findEncryption entries topic now = .expired newest)
      (hasked : Gives (k.inner.encryptionKey topic) q (.ok (some key)) t)
      (hexpiry : Gives (k.expiry now) t expiresAt u)
      (hpersist : Gives (k.persist (KeyCache.renew entries newest topic key expiresAt)) u () v) :
      EncryptionLookup k topic s (.ok (some key)) v
  /-- The source behind fails, and nothing can be done about it. -/
  | failed {s p q t : P} {entries : List CacheEntry} {now : Instant} {newest : Option Nat}
      {err : KeyError}
      (hload : Gives k.load s entries p) (hnow : Gives k.timing.now p now q)
      (hfind : KeyCache.findEncryption entries topic now = .expired newest)
      (hasked : Gives (k.inner.encryptionKey topic) q (.error err) t)
      (hlost : newest.bind (entries[·]?) = none ∨ err.isOutage = false) :
      EncryptionLookup k topic s (.error err) t
  /-- The source behind suffers an outage, which the best expired entry bridges. -/
  | bridged {s p q t u v : P} {entries : List CacheEntry} {now expiresAt : Instant}
      {position : Nat} {stale : CacheEntry} {err : KeyError}
      (hload : Gives k.load s entries p) (hnow : Gives k.timing.now p now q)
      (hfind : KeyCache.findEncryption entries topic now = .expired (some position))
      (hasked : Gives (k.inner.encryptionKey topic) q (.error err) t)
      (houtage : err.isOutage = true) (hstale : entries[position]? = some stale)
      (hexpiry : Gives (k.expiry now) t expiresAt u)
      (hpersist : Gives (k.persist (KeyCache.extend entries position expiresAt)) u () v) :
      EncryptionLookup k topic s (.ok (some stale.key)) v

/-- A lookup of the key to encrypt under goes in one of the six ways. -/
theorem encryptionLookup_of_gives {k : CachedKeys m} {topic : String} {s t : P}
    {r : Except KeyError (Option KeyVersion)} (h : Gives (k.encryptionKey topic) s r t) :
    EncryptionLookup k topic s r t := by
  simp only [encryptionKey, gives_bind] at h
  obtain ⟨entries, p, hload, now, q, hnow, h⟩ := h
  split at h
  next key hfind =>
    obtain ⟨rfl, rfl⟩ := gives_pure.mp h
    exact .served hload hnow hfind
  next candidates hfind =>
    obtain ⟨rfl, rfl⟩ := gives_pure.mp h
    exact .ambiguous hload hnow hfind
  next newest hfind =>
    obtain ⟨answer, t', hasked, h⟩ := gives_bind.mp h
    rcases answer with err | _ | key
    · rcases newest with _ | position
      · obtain ⟨rfl, rfl⟩ := gives_pure.mp h
        exact .failed hload hnow hfind hasked (.inl rfl)
      · rcases hstale : entries[position]? with _ | stale
        · simp only [Option.bind_some, hstale, Option.map_none, gives_pure] at h
          obtain ⟨rfl, rfl⟩ := h
          exact .failed hload hnow hfind hasked (.inl hstale)
        · simp only [Option.bind_some, hstale, Option.map_some] at h
          split at h
          next houtage =>
            simp only [gives_bind, gives_pure] at h
            obtain ⟨expiresAt, u, hexpiry, _, v, hpersist, rfl, rfl⟩ := h
            exact .bridged hload hnow hfind hasked houtage hstale hexpiry hpersist
          next houtage =>
            obtain ⟨rfl, rfl⟩ := gives_pure.mp h
            exact .failed hload hnow hfind hasked (.inr (by simpa using houtage))
    · obtain ⟨rfl, rfl⟩ := gives_pure.mp h
      exact .unkeyed hload hnow hfind hasked
    · simp only [gives_bind, gives_pure] at h
      obtain ⟨expiresAt, u, hexpiry, _, v, hpersist, rfl, rfl⟩ := h
      exact .fetched hload hnow hfind hasked hexpiry hpersist

/-- A lookup of the key to encrypt under can go in each of the six ways. -/
theorem EncryptionLookup.gives {k : CachedKeys m} {topic : String} {s t : P}
    {r : Except KeyError (Option KeyVersion)} (h : k.EncryptionLookup topic s r t) :
    Gives (k.encryptionKey topic) s r t := by
  unfold encryptionKey
  cases h with
  | served hload hnow hfind =>
    refine gives_bind.mpr ⟨_, _, hload, gives_bind.mpr ⟨_, _, hnow, ?_⟩⟩
    simp only [hfind]
    exact gives_pure.mpr ⟨rfl, rfl⟩
  | ambiguous hload hnow hfind =>
    refine gives_bind.mpr ⟨_, _, hload, gives_bind.mpr ⟨_, _, hnow, ?_⟩⟩
    simp only [hfind]
    exact gives_pure.mpr ⟨rfl, rfl⟩
  | unkeyed hload hnow hfind hasked =>
    refine gives_bind.mpr ⟨_, _, hload, gives_bind.mpr ⟨_, _, hnow, ?_⟩⟩
    simp only [hfind]
    exact gives_bind.mpr ⟨_, _, hasked, gives_pure.mpr ⟨rfl, rfl⟩⟩
  | fetched hload hnow hfind hasked hexpiry hpersist =>
    refine gives_bind.mpr ⟨_, _, hload, gives_bind.mpr ⟨_, _, hnow, ?_⟩⟩
    simp only [hfind]
    exact gives_bind.mpr ⟨_, _, hasked, gives_bind.mpr ⟨_, _, hexpiry,
      gives_bind.mpr ⟨_, _, hpersist, gives_pure.mpr ⟨rfl, rfl⟩⟩⟩⟩
  | @failed _ _ _ entries now newest err hload hnow hfind hasked hlost =>
    refine gives_bind.mpr ⟨_, _, hload, gives_bind.mpr ⟨_, _, hnow, ?_⟩⟩
    simp only [hfind]
    refine gives_bind.mpr ⟨_, _, hasked, ?_⟩
    rcases newest with _ | position
    · exact gives_pure.mpr ⟨rfl, rfl⟩
    · rcases hstale : entries[position]? with _ | stale
      · simp only [Option.bind_some, hstale, Option.map_none]
        exact gives_pure.mpr ⟨rfl, rfl⟩
      · have houtage : err.isOutage = false :=
          hlost.resolve_left fun hnone => absurd (hstale.symm.trans hnone) (Option.some_ne_none _)
        simp only [Option.bind_some, hstale, Option.map_some, houtage]
        exact gives_pure.mpr ⟨rfl, rfl⟩
  | bridged hload hnow hfind hasked houtage hstale hexpiry hpersist =>
    refine gives_bind.mpr ⟨_, _, hload, gives_bind.mpr ⟨_, _, hnow, ?_⟩⟩
    simp only [hfind]
    refine gives_bind.mpr ⟨_, _, hasked, ?_⟩
    simp only [Option.bind_some, hstale, Option.map_some, houtage, if_true]
    exact gives_bind.mpr ⟨_, _, hexpiry, gives_bind.mpr ⟨_, _, hpersist, gives_pure.mpr ⟨rfl, rfl⟩⟩⟩

/-- The ways in which a lookup of an old key can go. -/
inductive DecryptionLookup (k : CachedKeys m) (topic : String) (version : Version)
    (keyName : Option String) : P → Except KeyError String → P → Prop where
  /-- The key is stored. -/
  | served {s p : P} {entries : List CacheEntry} {material : String}
      (hload : Gives k.load s entries p)
      (hfind : KeyCache.findDecryption entries topic version keyName = .served material) :
      DecryptionLookup k topic version keyName s (.ok material) p
  /-- The stored keys contradict each other. -/
  | ambiguous {s p : P} {entries : List CacheEntry} {candidates : Nat}
      (hload : Gives k.load s entries p)
      (hfind : KeyCache.findDecryption entries topic version keyName = .ambiguous candidates) :
      DecryptionLookup k topic version keyName s (.error (.ambiguity topic candidates)) p
  /-- The source behind fails. -/
  | failed {s p q : P} {entries : List CacheEntry} {err : KeyError}
      (hload : Gives k.load s entries p)
      (hfind : KeyCache.findDecryption entries topic version keyName = .absent)
      (hasked : Gives (k.inner.decryptionKey topic version keyName) p (.error err) q) :
      DecryptionLookup k topic version keyName s (.error err) q
  /-- The source behind answers, and its answer is stored. -/
  | fetched {s p q t : P} {entries : List CacheEntry} {material : String}
      (hload : Gives k.load s entries p)
      (hfind : KeyCache.findDecryption entries topic version keyName = .absent)
      (hasked : Gives (k.inner.decryptionKey topic version keyName) p (.ok material) q)
      (hpersist : Gives
        (k.persist (entries ++ [.forDecryption topic version keyName material])) q () t) :
      DecryptionLookup k topic version keyName s (.ok material) t

/-- A lookup of an old key goes in one of the four ways. -/
theorem decryptionLookup_of_gives {k : CachedKeys m} {topic : String} {version : Version}
    {keyName : Option String} {s t : P} {r : Except KeyError String}
    (h : Gives (k.decryptionKey topic version keyName) s r t) :
    DecryptionLookup k topic version keyName s r t := by
  simp only [decryptionKey, gives_bind] at h
  obtain ⟨entries, p, hload, h⟩ := h
  split at h
  next material hfind =>
    obtain ⟨rfl, rfl⟩ := gives_pure.mp h
    exact .served hload hfind
  next candidates hfind =>
    obtain ⟨rfl, rfl⟩ := gives_pure.mp h
    exact .ambiguous hload hfind
  next hfind =>
    obtain ⟨answer, q, hasked, h⟩ := gives_bind.mp h
    cases answer with
    | error err =>
      obtain ⟨rfl, rfl⟩ := gives_pure.mp h
      exact .failed hload hfind hasked
    | ok material =>
      simp only [gives_bind, gives_pure] at h
      obtain ⟨_, u, hpersist, rfl, rfl⟩ := h
      exact .fetched hload hfind hasked hpersist

/-- A lookup of an old key can go in each of the four ways. -/
theorem DecryptionLookup.gives {k : CachedKeys m} {topic : String} {version : Version}
    {keyName : Option String} {s t : P} {r : Except KeyError String}
    (h : k.DecryptionLookup topic version keyName s r t) :
    Gives (k.decryptionKey topic version keyName) s r t := by
  unfold decryptionKey
  cases h with
  | served hload hfind =>
    refine gives_bind.mpr ⟨_, _, hload, ?_⟩
    simp only [hfind]
    exact gives_pure.mpr ⟨rfl, rfl⟩
  | ambiguous hload hfind =>
    refine gives_bind.mpr ⟨_, _, hload, ?_⟩
    simp only [hfind]
    exact gives_pure.mpr ⟨rfl, rfl⟩
  | failed hload hfind hasked =>
    refine gives_bind.mpr ⟨_, _, hload, ?_⟩
    simp only [hfind]
    exact gives_bind.mpr ⟨_, _, hasked, gives_pure.mpr ⟨rfl, rfl⟩⟩
  | fetched hload hfind hasked hpersist =>
    refine gives_bind.mpr ⟨_, _, hload, ?_⟩
    simp only [hfind]
    exact gives_bind.mpr ⟨_, _, hasked, gives_bind.mpr ⟨_, _, hpersist, gives_pure.mpr ⟨rfl, rfl⟩⟩⟩

end CachedKeys

end TopicCipher
