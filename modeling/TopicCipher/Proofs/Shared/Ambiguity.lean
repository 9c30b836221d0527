import Mathlib
import TopicCipher.Proofs.Shared.Updates

/-!
# Where ambiguities come from

Two live entries of a topic contradict each other, and a lookup that finds them fails.  Caches that
share a text never write such a contradiction on purpose: a lookup adds an entry, or lets one live
on, only after it found no live entry of the topic.  But it looks for live entries *at its own
reading of the clock*.  When another reading is earlier, entries that had expired are live again,
next to the one that was added because they had.

So there is an invariant, and it depends on how far the readings have come.  At every time that no
lookup of the topic has gone beyond, there is at most one live entry of the topic
(`length_liveEntries_le_one`).  It does not matter whose clock was read: the caches may disagree
about the time in any way, and may lose what they write.

* `Update.length_liveEntries_le`: how many live entries an update makes.
* `exists_later_reading_of_ambiguity`: an ambiguity shows that a clock went back.
-/

namespace TopicCipher.Shared

open KeyCache

variable {ι : Type} {s t : Place ι}

/-! ## Counting live entries -/

theorem length_liveEntries_le_of_sublist {kept entries : List CacheEntry} (h : kept.Sublist entries)
    (topic : String) (now : Instant) :
    (liveEntries kept topic now).length ≤ (liveEntries entries topic now).length :=
  (h.filter _).length_le

/-- A stored text has no more live entries than what is kept of the single entries. -/
theorem length_liveEntries_storedText_le (entries : List CacheEntry) (maxChars : Nat)
    (topic : String) (now : Instant) :
    (liveEntries (parse (storedText entries maxChars)) topic now).length ≤
      (liveEntries (entries.filterMap stored?) topic now).length := by
  rcases perm_parse_storedText entries maxChars with hnone | hperm
  · rw [hnone]
    exact Nat.zero_le _
  · exact (hperm.filter _).length_eq.le

/-- What is kept of an entry is live for the topic of the entry only, and only if it is one to
encrypt under. -/
theorem length_liveEntries_stored?_le (lookup : Lookup) {new : CacheEntry}
    (htopic : new.topic = lookup.topic) (henc : new.isEncryption = lookup.isEncryption)
    (topic : String) (now : Instant) :
    (liveEntries (stored? new).toList topic now).length ≤
      if lookup = .encryption topic then 1 else 0 := by
  rcases hstored : stored? new with _ | kept
  · exact Nat.zero_le _
  · obtain ⟨-, rfl⟩ := stored?_eq_some_iff.mp hstored
    split
    · exact List.length_filter_le _ _
    next hother =>
      refine (List.length_eq_zero_iff.mpr (List.eq_nil_iff_forall_not_mem.mpr fun e he => ?_)).le
      obtain ⟨hmem, heTopic, heEnc, -⟩ := mem_liveEntries.mp he
      obtain rfl := List.mem_singleton.mp hmem
      have hlookup : lookup.isEncryption = true := by
        rw [← henc, ← heEnc, CacheEntry.isEncryption, CacheEntry.isEncryption, asRead,
          Option.isSome_map]
      cases lookup with
      | encryption looked => exact hother (congrArg _ (htopic.symm.trans heTopic))
      | decryption _ _ _ => exact absurd hlookup Bool.false_ne_true

/-- **How many live entries an update makes**: at most one more of the topic to encrypt, and no more
of any other topic. -/
theorem Update.length_liveEntries_le {options : CachingOptions} {i : ι}
    {answer : Except KeyError (Option KeyVersion)} {entries updated : List CacheEntry}
    {lookup : Lookup} (h : Update options i s t answer entries lookup updated)
    (hstable : ∀ e ∈ entries, IsStable e) (maxChars : Nat) (topic : String) (now : Instant) :
    (liveEntries (parse (storedText updated maxChars)) topic now).length ≤
      (liveEntries entries topic now).length + if lookup = .encryption topic then 1 else 0 := by
  obtain ⟨new, kept, hperm, hkept, htopic, henc⟩ := h.exists_perm
  have hcons : (new :: kept).filterMap stored? = (stored? new).toList ++ kept := by
    rw [List.filterMap_cons, filterMap_stored?_of_isStable fun e he => hstable e (hkept.mem he)]
    cases stored? new <;> rfl
  calc (liveEntries (parse (storedText updated maxChars)) topic now).length
      ≤ (liveEntries (updated.filterMap stored?) topic now).length :=
        length_liveEntries_storedText_le updated maxChars topic now
    _ = (liveEntries ((stored? new).toList ++ kept) topic now).length := by
        rw [← hcons]
        exact ((hperm.filterMap stored?).filter _).length_eq
    _ = (liveEntries kept topic now).length +
          (liveEntries (stored? new).toList topic now).length := by
        rw [liveEntries, List.filter_append, List.length_append, Nat.add_comm]
        rfl
    _ ≤ _ := Nat.add_le_add (length_liveEntries_le_of_sublist hkept topic now)
        (length_liveEntries_stored?_le lookup htopic henc topic now)

theorem Update.exists_begins {options : CachingOptions} {i : ι}
    {answer : Except KeyError (Option KeyVersion)} {entries updated : List CacheEntry}
    {topic : String} (h : Update options i s t answer entries (.encryption topic) updated) :
    ∃ expiresAt, Begins options i s t entries topic expiresAt := by
  cases h with
  | extended hbegins _ _ _ => exact ⟨_, hbegins⟩
  | added hbegins _ => exact ⟨_, hbegins⟩

/-! ## Runs -/

variable {options : ι → CachingOptions} {steps : List (Step (Call ι) (Place ι))}

/-- The step looks up the key to encrypt the topic under, at the reading of its clock. -/
def LooksUpAt (step : Step (Call ι) (Place ι)) (topic : String) (reading : Instant) : Prop :=
  ∃ i, step.call = .lookUp i (.encryption topic) ∧
    Said step.before step.after ⟨.time i, reading⟩

/-- **At every time that no lookup of a topic has gone beyond, at most one entry of the topic is
live.** -/
theorem length_liveEntries_le_one (h : Run (perform options) fresh steps s) {topic : String}
    {now : Instant}
    (hpast : ∀ step ∈ steps, ∀ reading, LooksUpAt step topic reading → reading ≤ now) :
    (liveEntries (entriesOf s.1) topic now).length ≤ 1 := by
  induction h with
  | start => exact Nat.zero_le _
  | @call steps s t call hrun hcall ih =>
    have hbefore := ih fun step hstep => hpast step (List.mem_append_left _ hstep)
    have hlast := hpast ⟨call, s, t⟩ (List.mem_append_right _ (List.mem_singleton_self _))
    cases call with
    | clear i =>
      obtain ⟨answer, rfl⟩ := gives_clear.mp hcall
      exact (length_liveEntries_le_of_sublist (entriesOf_cleared_sublist s.1 answer)
        topic now).trans hbefore
    | lookUp i lookup =>
      obtain ⟨answer, hlookup⟩ := gives_perform_lookUp.mp hcall
      rcases update_of_gives hlookup with hsame | ⟨failure, updated, -, hupdate, hstored⟩
      · rwa [hsame]
      · have hloaded := loaded_sublist s.1 failure
        have hstable : ∀ e ∈ loaded s.1 failure, IsStable e :=
          fun e he => isStable_of_reaches hrun.reaches e (hloaded.mem he)
        have hcount := hupdate.length_liveEntries_le hstable (options i).maxChars topic now
        rw [hstored, entriesOf_some]
        split at hcount
        next hsame =>
          -- The lookup found no live entry at its reading, so there is none at any later time.
          subst hsame
          obtain ⟨expiresAt, reading, extra, hreading, hnone, -⟩ := hupdate.exists_begins
          rw [liveEntries_eq_nil_of_le hnone (hlast reading ⟨i, rfl, hreading⟩)] at hcount
          exact hcount
        next =>
          exact (hcount.trans (length_liveEntries_le_of_sublist hloaded topic now)).trans hbefore

/-- **An ambiguity shows that a clock went back.**  Caches share a text that was empty at first,
with whatever sources, settings and clocks, and whatever they fail to read or write.  If one of them
says by itself that the keys of a topic contradict each other, then an earlier lookup of the topic
read a strictly later time. -/
theorem exists_later_reading_of_ambiguity (hrun : Run (perform options) fresh steps s) {i : ι}
    {topic ambiguous : String} {candidates : Nat}
    (h : Gives ((cache (options i) i).encryptionKey topic) s
      (.error (.ambiguity ambiguous candidates)) t)
    (hown : ¬ Said s t ⟨.encryptionKey i topic, .error (.ambiguity ambiguous candidates)⟩) :
    ∃ now, Said s t ⟨.time i, now⟩ ∧
      ∃ step ∈ steps, ∃ later, LooksUpAt step topic later ∧ now < later := by
  obtain ⟨text, history⟩ := s
  cases encryptionTurn_of_gives h with
  | ambiguous hfind =>
    rename_i failure now
    refine ⟨now, ⟨_, rfl, .tail _ (.head _)⟩, ?_⟩
    by_contra hnone
    have hone : (liveEntries (entriesOf text) topic now).length ≤ 1 :=
      length_liveEntries_le_one hrun fun step hstep later hlater => by_contra fun hle =>
        hnone ⟨step, hstep, later, hlater, Instant.not_le.mp hle⟩
    have htwo := two_le_length_of_findEncryption hfind
    have hloaded := length_liveEntries_le_of_sublist (loaded_sublist text failure) topic now
    omega
  | failed hfind hlost => exact absurd ⟨_, rfl, .tail _ (.tail _ (.head _))⟩ hown

/-! ## Clocks that disagree -/

/-- The settings of a cache that keeps keys for ten seconds. -/
def brief : CachingOptions := ⟨10, 0, 65536⟩

/-- Each cache is named by the second that its clock tells, and its source has a version of its
own. -/
def disagreeing : (q : Question Nat) → Answer q
  | .readText => none
  | .writeText _ => (true, .ok ())
  | .time second => .ofSecond second
  | .jitter _ _ => .zero
  | .encryptionKey second _ => .ok (some ⟨.ofNat second, none, "k"⟩)
  | .decryptionKey _ _ _ _ => .error (.store "sealed")
  | .vector _ => .ok []

/-- A lookup stores a key at second 100 and another one stores a key at second 200, when the first
key has expired.  At second 105 both are live. -/
theorem ambiguity_of_disagreeing_clocks :
    ∃ steps s t, Run (perform fun _ : Nat => brief) fresh steps s ∧
      Gives ((cache brief 105).encryptionKey "t") s (.error (.ambiguity "t" 2)) t ∧
      ∃ now, Said s t ⟨.time 105, now⟩ ∧
        ∃ step ∈ steps, ∃ later, LooksUpAt step "t" later ∧ now < later := by
  let execution : Execution (Outside Nat) := (Dialogue.execution disagreeing).layer
  let run := execution.follow (perform fun _ => brief) fresh
    [.lookUp 100 (.encryption "t"), .lookUp 200 (.encryption "t")]
  let outcome := execution.run ((cache brief 105).encryptionKey "t") run.2
  have hrun : Run (perform fun _ => brief) fresh run.1 run.2 := execution.run_follow _ _ _
  have hgives : Gives ((cache brief 105).encryptionKey "t") run.2 outcome.1 outcome.2 :=
    execution.gives_run _ _
  -- The equations that `cbv` unfolds runs with are spread over the library, hence all of it above.
  have hambiguous : outcome.1 = .error (.ambiguity "t" 2) := by cbv
  rw [hambiguous] at hgives
  have hown : ¬ Said run.2 outcome.2
      ⟨.encryptionKey 105 "t", .error (.ambiguity "t" 2)⟩ := by
    rintro ⟨said, hsaid, hmem⟩
    obtain rfl := List.append_cancel_left hsaid
    have hanswer := Dialogue.answer_eq_of_mem_under disagreeing _ hmem
    simp [disagreeing] at hanswer
  exact ⟨run.1, run.2, outcome.2, hrun, hgives,
    exists_later_reading_of_ambiguity hrun hgives hown⟩

end TopicCipher.Shared
