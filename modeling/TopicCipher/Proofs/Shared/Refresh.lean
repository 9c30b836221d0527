import TopicCipher.Proofs.Shared.Ambiguity
import TopicCipher.Proofs.Shared.Frame
import TopicCipher.Proofs.Shared.Stored

/-!
# Refreshing keys

When the entry of a key has expired, the source behind is asked again, and mostly it answers with
the same key.  Then the entry should live on.  If every answer got an entry of its own, the text
would grow with time until it is too long, and then all old keys would be lost with it.

A cache compares the answer with one entry only, the best one of the topic.  That is enough for a
source that goes on to newer keys.  But a source may go back to a key that is stored already, while
another key is the best one, and then the key gets a second entry.  Each such *relapse* makes the
keys one more, and nothing else does: any other answer is the key of the best entry, which lives on,
or a key that has no entry yet.  So the entries of a topic are no more than the different keys that
the sources have answered with, and the relapses.

* `Revision.subperm_encryptionKeys`: what a lookup makes of the keys of a topic.
* `subperm_of_run`: the different keys and the relapses are an upper bound.
* `refreshed_of_run`: what this means for the entries of a topic, and when there are relapses.
-/

namespace TopicCipher

namespace KeyCache

variable {entries others kept : List CacheEntry} {topic : String}

/-! ## The keys of a topic -/

/-- The keys that are stored to encrypt a topic under. -/
def encryptionKeys (entries : List CacheEntry) (topic : String) : List KeyVersion :=
  (encryptionEntries entries topic).map (·.key)

theorem encryptionKeys_cons (e : CacheEntry) (entries : List CacheEntry) (topic : String) :
    encryptionKeys (e :: entries) topic =
      if e.topic = topic ∧ e.isEncryption = true then e.key :: encryptionKeys entries topic
      else encryptionKeys entries topic := by
  simp only [encryptionKeys, encryptionEntries, List.filter_cons, Bool.and_eq_true,
    decide_eq_true_eq]
  split <;> rfl

theorem perm_encryptionKeys (h : entries.Perm others) (topic : String) :
    (encryptionKeys entries topic).Perm (encryptionKeys others topic) :=
  (h.filter _).map _

theorem encryptionKeys_sublist (h : entries.Sublist others) (topic : String) :
    (encryptionKeys entries topic).Sublist (encryptionKeys others topic) :=
  (h.filter _).map _

/-- A text says no other keys than those that were written, if they have no empty name. -/
theorem subperm_encryptionKeys_parse_serialize (entries : List CacheEntry) (topic : String)
    (hnames : ∀ key ∈ encryptionKeys entries topic, key.keyName ≠ some "") :
    (encryptionKeys (parse (serialize entries)) topic).Subperm (encryptionKeys entries topic) := by
  have hperm := perm_encryptionKeys (List.mergeSort_perm entries fun a b => (a.order b).isLE) topic
  have hkept : ∀ e ∈ encryptionEntries (entries.mergeSort fun a b => (a.order b).isLE) topic,
      ∀ key, (stored? e).map (·.key) = some key → key = e.key := by
    intro e he key hkey
    obtain ⟨read, hstored, rfl⟩ := Option.map_eq_some_iff.mp hkey
    obtain ⟨-, rfl⟩ := stored?_eq_some_iff.mp hstored
    have hname : e.key.keyName ≠ some "" := hnames e.key (hperm.mem_iff.mp (List.mem_map_of_mem he))
    have hread : asRead e = ⟨e.topic, e.key, e.expiresAt.map Instant.carry⟩ :=
      asRead_of_keyName_ne hname
    rw [hread]
  rw [encryptionKeys, encryptionEntries,
    filter_parse_serialize_eq entries (isEncryptionOf_asRead topic), List.map_filterMap]
  exact (filterMap_sublist_map hkept).subperm.trans hperm.subperm

/-- An entry that lives on keeps its key. -/
theorem perm_encryptionKeys_extend {position : Nat} {old : CacheEntry}
    (hold : entries[position]? = some old) (henc : old.isEncryption = true) (expiresAt : Instant)
    (topic : String) :
    (encryptionKeys (extend entries position expiresAt) topic).Perm
      (encryptionKeys entries topic) := by
  obtain ⟨hentries, hextended⟩ := Shared.perm_extend hold expiresAt
  have hcons : encryptionKeys
      ({ old with expiresAt := some expiresAt } :: entries.eraseIdx position)
      topic = encryptionKeys (old :: entries.eraseIdx position) topic := by
    rw [encryptionKeys_cons, encryptionKeys_cons, henc]
    rfl
  have hafter := perm_encryptionKeys hextended topic
  rw [hcons] at hafter
  exact hafter.trans (perm_encryptionKeys hentries.symm topic)

end KeyCache

namespace Shared

open KeyCache

variable {ι : Type} {s t : Place ι} {topic : String}

/-! ## Relapses -/

/-- In the step, a source answered with a key that is stored, but not as the best one. -/
def relapses (topic : String) (step : Step (Call ι) (Place ι)) : Bool :=
  let stored := encryptionEntries (entriesOf step.before.1) topic
  (fetchedKeys topic (since step.before step.after)).any fun key =>
    stored.any (·.key = key) && (best? stored).all (·.key ≠ key)

/-! ## Lookups -/

/-- What is written holds the keys of the entries, and perhaps one more. -/
theorem Revision.perm_encryptionKeys {options : CachingOptions} {i : ι} {lookup : Lookup}
    {answer : Except KeyError (Option KeyVersion)} {entries updated : List CacheEntry}
    (h : Revision options i s t entries lookup answer updated) (topic : String) :
    (encryptionKeys updated topic).Perm (encryptionKeys entries topic) ∨
      ∃ key ∈ fetchedKeys topic (since s t),
        (best? (encryptionEntries entries topic)).all (·.key ≠ key) = true ∧
        (encryptionKeys updated topic).Perm (key :: encryptionKeys entries topic) := by
  cases h with
  | @renewed asked now newest key extra hnow hfind hasked hextra =>
    have hnewest := newest?_eq_of_findEncryption hfind
    rcases renew_eq entries newest asked key (expiryAfter now options.ttl extra) with
      ⟨position, old, rfl, hold, -, hrenew⟩ | ⟨hother, hrenew⟩ <;> rw [hrenew]
    · obtain ⟨e, he, -, henc⟩ := exists_mem_of_newest? hnewest
      exact .inl (perm_encryptionKeys_extend he henc _ topic)
    · have hperm := KeyCache.perm_encryptionKeys (List.perm_append_singleton
        (.forEncryption asked key (expiryAfter now options.ttl extra)) entries) topic
      rw [encryptionKeys_cons] at hperm
      split at hperm
      next htopic =>
        obtain rfl : asked = topic := htopic.1
        refine .inr ⟨_, mem_fetchedKeys.mpr ⟨i, key, hasked.mem_since, rfl⟩, ?_, hperm⟩
        rw [Option.all_eq_true]
        intro best hbest
        rw [← newest?_bind_eq, hnewest] at hbest
        simpa [CacheEntry.holds] using hother best hbest
      next => exact .inl hperm
  | @bridged asked now position stale err extra hnow hfind hasked houtage hstale hextra =>
    obtain ⟨e, he, -, henc⟩ := exists_mem_of_newest? (newest?_eq_of_findEncryption hfind)
    exact .inl (perm_encryptionKeys_extend he henc _ topic)
  | added hfind hasked =>
    refine .inl (List.Perm.of_eq ?_)
    simp [encryptionKeys, encryptionEntries, CacheEntry.forDecryption, CacheEntry.isEncryption]

/-- **What a lookup makes of the keys of a topic**: it adds none, or one that a source answered with
and that is not the best one. -/
theorem Revision.subperm_encryptionKeys {options : CachingOptions} {i : ι} {lookup : Lookup}
    {answer : Except KeyError (Option KeyVersion)} {entries updated : List CacheEntry}
    (h : Revision options i s t entries lookup answer updated) (hread : ∀ e ∈ entries, asRead e = e)
    (hnames : ∀ key ∈ fetchedKeys topic (since s t), key.keyName ≠ some "") :
    (encryptionKeys (parse (serialize updated)) topic).Subperm (encryptionKeys entries topic) ∨
      ∃ key ∈ fetchedKeys topic (since s t),
        (best? (encryptionEntries entries topic)).all (·.key ≠ key) = true ∧
        (encryptionKeys (parse (serialize updated)) topic).Subperm
          (key :: encryptionKeys entries topic) := by
  have hnamed : ∀ key ∈ encryptionKeys entries topic, key.keyName ≠ some "" := by
    intro key hkey hname
    obtain ⟨e, he, rfl⟩ := List.mem_map.mp hkey
    exact keyName_ne_of_asRead (hread e (mem_encryptionEntries.mp he).1) hname
  rcases h.perm_encryptionKeys topic with hsame | ⟨key, hfetched, hbest, hmore⟩
  · refine .inl ((subperm_encryptionKeys_parse_serialize updated topic fun key hkey => ?_).trans
      hsame.subperm)
    exact hnamed key (hsame.mem_iff.mp hkey)
  · refine .inr ⟨key, hfetched, hbest,
      (subperm_encryptionKeys_parse_serialize updated topic fun other hother => ?_).trans
        hmore.subperm⟩
    rcases List.mem_cons.mp (hmore.mem_iff.mp hother) with rfl | hmem
    · exact hnames other hfetched
    · exact hnamed other hmem

/-! ## Runs -/

variable {options : ι → CachingOptions} {steps : List (Step (Call ι) (Place ι))}

/-- What a call makes of the bound: the keys that it stores again are relapses. -/
theorem subperm_of_gives {call : Call ι} {again : List KeyVersion}
    (hgives : Gives (perform options call) s () t)
    (hnames : ∀ key ∈ fetchedKeys topic t.2, key.keyName ≠ some "")
    (hbefore : (encryptionKeys (entriesOf s.1) topic).Subperm
      ((fetchedKeys topic s.2).dedup ++ again)) :
    ∃ more : List KeyVersion,
      more.length ≤ again.length + [(⟨call, s, t⟩ : Step (Call ι) (Place ι))].countP
        (relapses topic) ∧
      (encryptionKeys (entriesOf t.1) topic).Subperm ((fetchedKeys topic t.2).dedup ++ more) := by
  have hfetched := fetchedKeys_append_since topic (gives_later hgives : s.2 <+: t.2)
  have hkept : (encryptionKeys (entriesOf s.1) topic).Subperm
      ((fetchedKeys topic t.2).dedup ++ again) := by
    refine hbefore.trans ((List.subperm_append_right again).mpr ?_)
    refine (List.nodup_dedup _).subperm fun key hkey => List.mem_dedup.mpr ?_
    rw [← hfetched]
    exact List.mem_append_left _ (List.mem_dedup.mp hkey)
  have hnone : ∀ {keys : List KeyVersion}, keys.Subperm (encryptionKeys (entriesOf s.1) topic) →
      ∃ more : List KeyVersion,
        more.length ≤ again.length + [(⟨call, s, t⟩ : Step (Call ι) (Place ι))].countP
          (relapses topic) ∧
        keys.Subperm ((fetchedKeys topic t.2).dedup ++ more) :=
    fun h => ⟨again, Nat.le_add_right _ _, h.trans hkept⟩
  rcases sublist_or_revision_of_gives hgives with
    hsublist | ⟨i, lookup, answer, failure, updated, hrevision, hstored⟩
  · exact hnone (encryptionKeys_sublist hsublist topic).subperm
  rw [hstored]
  have hloaded := (encryptionKeys_sublist (loaded_sublist s.1 failure) topic).subperm
  rcases hrevision.subperm_encryptionKeys
      (fun e he => asRead_of_mem_entriesOf e ((loaded_sublist s.1 failure).mem he))
      (fun key hkey => hnames key (hfetched ▸ List.mem_append_right _ hkey)) with
    hsame | ⟨key, hkey, hbest, hadded⟩
  · exact hnone (hsame.trans hloaded)
  by_cases hmem : key ∈ encryptionKeys (loaded s.1 failure) topic
  · -- The key is stored, so the storage was read, and the step is a relapse.
    have hrelapses : relapses topic (⟨call, s, t⟩ : Step (Call ι) (Place ι)) = true := by
      cases failure with
      | some _ => exact absurd hmem List.not_mem_nil
      | none =>
        obtain ⟨e, he, hsame⟩ := List.mem_map.mp hmem
        refine List.any_eq_true.mpr ⟨key, hkey, Bool.and_eq_true_iff.mpr ⟨?_, hbest⟩⟩
        exact List.any_eq_true.mpr ⟨e, he, decide_eq_true hsame⟩
    refine ⟨key :: again, ?_, hadded.trans ?_⟩
    · rw [List.length_cons, List.countP_singleton, if_pos hrelapses]
    · exact ((List.subperm_cons key).mpr (hloaded.trans hkept)).trans List.perm_middle.symm.subperm
  · have hfetchedKey : key ∈ (fetchedKeys topic t.2).dedup := by
      rw [List.mem_dedup, ← hfetched]
      exact List.mem_append_right _ hkey
    exact ⟨again, Nat.le_add_right _ _, hadded.trans (List.cons_subperm_of_not_mem_of_mem hmem
      (List.mem_append_left _ hfetchedKey) (hloaded.trans hkept))⟩

/-- **The different keys and the relapses are an upper bound** of the stored keys of a topic. -/
theorem subperm_of_run (hrun : Run (perform options) fresh steps s)
    (hnames : ∀ key ∈ fetchedKeys topic s.2, key.keyName ≠ some "") :
    ∃ again : List KeyVersion, again.length ≤ steps.countP (relapses topic) ∧
      (encryptionKeys (entriesOf s.1) topic).Subperm ((fetchedKeys topic s.2).dedup ++ again) := by
  induction hrun with
  | start => exact ⟨[], Nat.zero_le _, List.nil_subperm⟩
  | @call steps s t call hrun hcall ih =>
    have hfetched := fetchedKeys_append_since topic (gives_later hcall : s.2 <+: t.2)
    obtain ⟨again, hcount, hsubperm⟩ := ih fun key hkey =>
      hnames key (hfetched ▸ List.mem_append_left _ hkey)
    obtain ⟨more, hmore, hsubperm⟩ := subperm_of_gives hcall hnames hsubperm
    refine ⟨more, ?_, hsubperm⟩
    rw [List.countP_append]
    omega

/-- **A source relapses when it goes back.**  Before that, the key was an answer already, and so was
another key with no lower version. -/
theorem exists_other_of_relapses (hrun : Run (perform options) fresh steps s)
    (hnames : ∀ key ∈ fetchedKeys topic s.2, key.keyName ≠ some "") {step : Step (Call ι) (Place ι)}
    (hstep : step ∈ steps) (hrelapses : relapses topic step = true) :
    ∃ key ∈ fetchedKeys topic (since step.before step.after),
      key ∈ fetchedKeys topic step.before.2 ∧
      ∃ other ∈ fetchedKeys topic step.before.2, other ≠ key ∧ key.version ≤ other.version := by
  obtain ⟨hstart, hperform, hend⟩ := hrun.of_mem hstep
  have hlater : step.before.2 <+: s.2 := (gives_later hperform : _ <+: _).trans hend
  have hstored : ∀ e ∈ encryptionEntries (entriesOf step.before.1) topic,
      e.key ∈ fetchedKeys topic step.before.2 :=
    mem_fetchedKeys_of_reaches (hrun.reaches_before hstep) fun key hkey =>
      hnames key ((hlater.filterMap _).subset hkey)
  obtain ⟨key, hkey, hmatch⟩ := List.any_eq_true.mp hrelapses
  obtain ⟨hheld, hbetter⟩ := Bool.and_eq_true_iff.mp hmatch
  obtain ⟨e, he, hsame⟩ := List.any_eq_true.mp hheld
  obtain rfl := of_decide_eq_true hsame
  obtain ⟨best, hbest⟩ := exists_best? (List.ne_nil_of_mem he)
  rw [hbest] at hbetter
  have hisBest := isBest_of_isNotBetter (mem_of_best? hbest) (isNotBetter_of_best? hbest)
  exact ⟨e.key, hkey, hstored e he, best.key, hstored best hisBest.mem, of_decide_eq_true hbetter,
    hisBest.greatest e he⟩

/-! ## Entries that live on -/

/-- What a lookup stores when a source has answered with a key and the storage works. -/
theorem exists_renew_of_fetched {options : CachingOptions} {i : ι}
    {answer : Except KeyError (Option KeyVersion)} {key : KeyVersion}
    (hgives : Gives (lookUp options i (.encryption topic)) s answer t)
    (hworks : (since s t).all storageWorks = true) (hkey : key ∈ fetchedKeys topic (since s t)) :
    ∃ now newest original extra, { original with material := Text.trim original.material } = key ∧
      Said s t ⟨.time i, now⟩ ∧ findEncryption (entriesOf s.1) topic now = .expired newest ∧
      Revision options i s t (entriesOf s.1) (.encryption topic) answer
        (renew (entriesOf s.1) newest topic original (expiryAfter now options.ttl extra)) ∧
      t.1 = some (storedText (renew (entriesOf s.1) newest topic original
        (expiryAfter now options.ttl extra)) options.maxChars) := by
  obtain ⟨j, original, hasked, rfl⟩ := mem_fetchedKeys.mp hkey
  obtain ⟨text, history⟩ := s
  cases encryptionTurn_of_gives hgives with
  | @fetched failure now newest found extra new stored hfind hnew =>
    simp only [since_append, List.all_cons, storageWorks, Option.isNone_iff_eq_none,
      Bool.and_eq_true, Bool.true_and, List.all_nil, Bool.and_true] at hworks
    obtain ⟨rfl, hstored⟩ := hworks
    obtain ⟨-, rfl⟩ : j = i ∧ original = found := by simpa using hasked
    subst hnew
    exact ⟨now, newest, original, extra, rfl, by simp, hfind,
      .renewed (by simp) hfind (by simp) (by simp), if_pos hstored⟩
  | _ => exact absurd hasked (by simp)

/-- **When a source answers with the key of the best entry**, this entry lives on, and all others
stay as they are. -/
theorem extended_of_fetched {i : ι} {best : CacheEntry} (hrun : Reaches (perform options) fresh s)
    (hgives : Gives (perform options (.lookUp i (.encryption topic))) s () t)
    (hworks : (since s t).all storageWorks = true)
    (hroom : ForgetsNothing options ⟨.lookUp i (.encryption topic), s, t⟩)
    (hbest : best? (encryptionEntries (entriesOf s.1) topic) = some best)
    (hkey : best.key ∈ fetchedKeys topic (since s t)) :
    ∃ now extra kept, Said s t ⟨.time i, now⟩ ∧ (entriesOf s.1).Perm (best :: kept) ∧
      (entriesOf t.1).Perm
        ({ best with expiresAt := some (expiryAfter now (options i).ttl extra).carry }
          :: kept) := by
  obtain ⟨answer, hlookup⟩ := gives_perform_lookUp.mp hgives
  obtain ⟨now, newest, original, extra, hsame, hnow, hfind, hrevision, htext⟩ :=
    exists_renew_of_fetched hlookup hworks hkey
  have hstable := isStable_of_reaches hrun
  have hposition := hbest
  rw [← newest?_bind_eq, newest?_eq_of_findEncryption hfind, Option.bind_eq_some_iff] at hposition
  obtain ⟨position, rfl, hposition⟩ := hposition
  have hholds : (entriesOf s.1)[position]?.any (·.holds original) = true := by
    rw [hposition, Option.any_some, CacheEntry.holds, hsame]
    exact beq_self_eq_true best.key
  have hrenew : renew (entriesOf s.1) (some position) topic original
      (expiryAfter now (options i).ttl extra) =
        extend (entriesOf s.1) position (expiryAfter now (options i).ttl extra) := if_pos hholds
  rw [hrenew] at hrevision htext
  -- The entry has expired, so the clock has come to a year that can be written.
  have hyear : 0 ≤ now.year := by
    obtain ⟨expiry, hexpiry⟩ := exists_expiresAt_of_mem (mem_of_best? hbest)
    have hexpired := isExpiredAt_of_findEncryption hfind best (mem_of_best? hbest)
    have hstorable := (isStable_iff.mp (hstable best (List.mem_of_getElem? hposition))).1
    exact (hstorable.year expiry hexpiry).1.trans
      (Instant.year_mono (le_of_isExpiredAt hexpired hexpiry))
  obtain ⟨_, _, hcall, hshort⟩ := hroom
  obtain ⟨rfl, rfl⟩ := Call.lookUp.inj hcall
  rw [storedText, if_neg (hshort answer _ hrevision).not_gt] at htext
  refine ⟨now, extra, _, hnow, (perm_extend hposition now).1, ?_⟩
  rw [htext, entriesOf_some]
  exact perm_parse_extend hstable hposition (hasFourDigitYear_expiryAfter hyear _ _)

/-- What a run makes of the entries to encrypt a topic under. -/
structure Refreshed (options : ι → CachingOptions) (topic : String)
    (steps : List (Step (Call ι) (Place ι))) (s : Place ι) : Prop where
  /-- There are no more of them than different keys that the sources have answered with, and
  relapses. -/
  bounded : (encryptionKeys (entriesOf s.1) topic).length ≤
    (fetchedKeys topic s.2).dedup.length + steps.countP (relapses topic)
  /-- Without relapses, no two of them hold the same key. -/
  nodup : (∀ step ∈ steps, relapses topic step = false) →
    (encryptionKeys (entriesOf s.1) topic).Nodup
  /-- Whenever the key of the best one is answered and can be stored, this one lives on, and all
  other entries of all topics stay as they are. -/
  extended : ∀ step ∈ steps, ∀ i best, step.call = .lookUp i (.encryption topic) →
    best? (encryptionEntries (entriesOf step.before.1) topic) = some best →
    best.key ∈ fetchedKeys topic (since step.before step.after) →
    (since step.before step.after).all storageWorks = true → ForgetsNothing options step →
    ∃ now extra kept, Said step.before step.after ⟨.time i, now⟩ ∧
      (entriesOf step.before.1).Perm (best :: kept) ∧
      (entriesOf step.after.1).Perm
        ({ best with expiresAt := some (expiryAfter now (options i).ttl extra).carry } :: kept)
  /-- At a relapse, the key was answered before, and another one with no lower version, too. -/
  again : ∀ step ∈ steps, relapses topic step = true →
    ∃ key ∈ fetchedKeys topic (since step.before step.after),
      key ∈ fetchedKeys topic step.before.2 ∧
      ∃ other ∈ fetchedKeys topic step.before.2, other ≠ key ∧ key.version ≤ other.version

/-- **Refreshing a key makes no second entry, unless a source relapses.**  Any number of caches
share a text that was empty at first, whatever their clocks say and whatever they fail to read or
write.  If no key of the topic has an empty name, then its entries are refreshed: the best one lives
on if its key is answered again, and only relapses make two entries of one key. -/
theorem refreshed_of_run (hrun : Run (perform options) fresh steps s)
    (hnames : ∀ key ∈ fetchedKeys topic s.2, key.keyName ≠ some "") :
    Refreshed options topic steps s := by
  obtain ⟨again, hcount, hsubperm⟩ := subperm_of_run hrun hnames
  refine ⟨?_, fun hnone => ?_, ?_, fun step hstep => exists_other_of_relapses hrun hnames hstep⟩
  · have hlength := hsubperm.length_le
    rw [List.length_append] at hlength
    omega
  · have hzero : steps.countP (relapses topic) = 0 :=
      List.countP_eq_zero.mpr fun step hstep => by simp [hnone step hstep]
    obtain rfl := List.eq_nil_of_length_eq_zero (Nat.le_zero.mp (hzero ▸ hcount))
    rw [List.append_nil] at hsubperm
    obtain ⟨keys, hperm, hsublist⟩ := hsubperm
    exact hperm.nodup_iff.mp ((List.nodup_dedup _).sublist hsublist)
  · rintro ⟨call, before, after⟩ hstep i best rfl hbest hkey hworks hroom
    obtain ⟨-, hperform, -⟩ := hrun.of_mem hstep
    exact extended_of_fetched (hrun.reaches_before hstep) hperform hworks hroom hbest hkey

/-! ## A source that goes back -/

/-- A key is refreshed, then there is a newer one, and then the source goes back. -/
theorem refreshed_despite_relapse :
    ∃ steps s, Run (perform fun _ : Unit => brief) fresh steps s ∧
      (encryptionKeys (entriesOf s.1) "t").map (·.material) = ["b", "a", "a"] ∧
      (fetchedKeys "t" s.2).dedup.length = 2 ∧ steps.countP (relapses "t") = 1 ∧
      (∀ key ∈ fetchedKeys "t" s.2, key.keyName ≠ some "") ∧
      Refreshed (fun _ => brief) "t" steps s := by
  let ask : Call Unit := .lookUp () (.encryption "t")
  let first := (withOracle (outsideAt (.ofSecond 100) (.ok (some ⟨1, none, "a"⟩)))).run
    (perform (fun _ => brief) ask) fresh
  let second := (withOracle (outsideAt (.ofSecond 120) (.ok (some ⟨1, none, "a"⟩)))).run
    (perform (fun _ => brief) ask) first.2
  let third := (withOracle (outsideAt (.ofSecond 140) (.ok (some ⟨2, none, "b"⟩)))).run
    (perform (fun _ => brief) ask) second.2
  let fourth := (withOracle (outsideAt (.ofSecond 160) (.ok (some ⟨1, none, "a"⟩)))).run
    (perform (fun _ => brief) ask) third.2
  let steps : List (Step (Call Unit) (Place Unit)) :=
    [⟨ask, fresh, first.2⟩, ⟨ask, first.2, second.2⟩, ⟨ask, second.2, third.2⟩,
      ⟨ask, third.2, fourth.2⟩]
  have hrun : Run (perform fun _ => brief) fresh steps fourth.2 :=
    Execution.run_call _ (Execution.run_call _
      (Execution.run_call _ (Execution.run_call _ .start _) _) _) _
  have hreached : (encryptionKeys (entriesOf fourth.2.1) "t").map (·.material) = ["b", "a", "a"] ∧
      (fetchedKeys "t" fourth.2.2).dedup.length = 2 ∧ steps.countP (relapses "t") = 1 ∧
      (fetchedKeys "t" fourth.2.2).all (·.keyName ≠ some "") = true := by cbv
  obtain ⟨hkeys, hfetched, hcount, hall⟩ := hreached
  have hnames : ∀ key ∈ fetchedKeys "t" fourth.2.2, key.keyName ≠ some "" :=
    fun key hkey => of_decide_eq_true (List.all_eq_true.mp hall key hkey)
  exact ⟨steps, fourth.2, hrun, hkeys, hfetched, hcount, hnames, refreshed_of_run hrun hnames⟩

/-- A source that goes back makes two entries of one key, also when nothing goes wrong. -/
theorem not_forall_nodup :
    ¬ ∀ (options : Unit → CachingOptions) (topic : String) (s : Place Unit)
      (steps : List (Step (Call Unit) (Place Unit))), Run (perform options) fresh steps s →
      Smooth s.2 → (∀ step ∈ steps, ForgetsNothing options step) →
      (∀ key ∈ fetchedKeys topic s.2, key.keyName ≠ some "") →
      (encryptionKeys (entriesOf s.1) topic).Nodup := by
  intro h
  let ask : Call Unit := .lookUp () (.encryption "t")
  let older : Except KeyError (Option KeyVersion) := .ok (some ⟨1, none, "a"⟩)
  let newer : Except KeyError (Option KeyVersion) := .ok (some ⟨2, none, "b"⟩)
  let first := (withOracle (outsideAt (.ofSecond 100) older)).run
    (perform (fun _ => brief) ask) fresh
  let second := (withOracle (outsideAt (.ofSecond 120) newer)).run
    (perform (fun _ => brief) ask) first.2
  let third := (withOracle (outsideAt (.ofSecond 140) older)).run
    (perform (fun _ => brief) ask) second.2
  have hrun : Run (perform fun _ => brief) fresh
      [⟨ask, fresh, first.2⟩, ⟨ask, first.2, second.2⟩, ⟨ask, second.2, third.2⟩] third.2 :=
    Execution.run_call _ (Execution.run_call _ (Execution.run_call _ .start _) _) _
  have hreached : (encryptionKeys (entriesOf third.2.1) "t").length = 3 ∧
      (encryptionKeys (entriesOf third.2.1) "t").dedup.length = 2 ∧
      (fetchedKeys "t" third.2.2).all (·.keyName ≠ some "") = true ∧
      readings third.2.2 = [.ofSecond 100, .ofSecond 120, .ofSecond 140] ∧
      third.2.2.all storageWorks = true := by cbv
  obtain ⟨hlength, hdifferent, hall, hreadings, hworks⟩ := hreached
  have hnames : ∀ key ∈ fetchedKeys "t" third.2.2, key.keyName ≠ some "" :=
    fun key hkey => of_decide_eq_true (List.all_eq_true.mp hall key hkey)
  have hsmooth : Smooth third.2.2 := by
    refine smooth_of_works hworks ?_ ?_ <;> rw [hreadings] <;> decide
  have hfits : (serialize (revised (outsideAt (.ofSecond 100) older) brief () []
        (.encryption "t"))).length ≤ brief.maxChars ∧
      (serialize (revised (outsideAt (.ofSecond 120) newer) brief () (entriesOf first.2.1)
        (.encryption "t"))).length ≤ brief.maxChars ∧
      (serialize (revised (outsideAt (.ofSecond 140) older) brief () (entriesOf second.2.1)
        (.encryption "t"))).length ≤ brief.maxChars := by cbv
  have hroom : ∀ step ∈ [⟨ask, fresh, first.2⟩, ⟨ask, first.2, second.2⟩, ⟨ask, second.2, third.2⟩],
      ForgetsNothing (fun _ => brief) step :=
    List.forall_mem_cons.mpr ⟨forgetsNothing_of_oracle hfits.1,
      List.forall_mem_cons.mpr ⟨forgetsNothing_of_oracle hfits.2.1,
        List.forall_mem_singleton.mpr (forgetsNothing_of_oracle hfits.2.2)⟩⟩
  have hnodup := h (fun _ => brief) "t" third.2 _ hrun hsmooth hroom hnames
  rw [hnodup.dedup, hlength] at hdifferent
  exact absurd hdifferent (by decide)

end Shared

end TopicCipher
