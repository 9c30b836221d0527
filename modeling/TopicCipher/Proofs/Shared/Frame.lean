import Mathlib
import TopicCipher.Proofs.Shared.Updates

/-!
# What a lookup leaves of the stored entries

A lookup that has something to store writes the whole text anew: all entries are sorted, grouped by
topic, printed, and read again by the next lookup.  Caches of other topics depend on that text as
well, so nothing of theirs may get lost on the way.

Nothing does.  All stored entries are stable, so they survive being written any number of times
(`isStable_of_reaches`).  The entry that a lookup adds is the only one that is written for the first
time, and it alone may change or get lost.  An entry with a new expiry is safe, too, as long as the
year of the expiry has four digits.

What can get lost are entries that were not loaded: when the storage fails to read the text but
takes the next one, only what the lookup knows is stored.  The caches accept that, because a storage
that fails must never fail a lookup; so the entries to compare with are the loaded ones.

* `Rewritten`: the three things that writing may do to the loaded entries.
* `Rewritten.perm_others`: other entries are neither lost nor changed nor multiplied.
* `rewritten_of_gives`: every lookup leaves the text alone, empties it, or does one of the three
  things.
-/

namespace TopicCipher

/-- The entry of a key that a lookup answers with. -/
def Lookup.entry (lookup : Lookup) (key : KeyVersion) (expiresAt : Instant) : CacheEntry :=
  match lookup with
  | .encryption topic => .forEncryption topic key expiresAt
  | .decryption topic version keyName => .forDecryption topic version keyName key.material

/-- Holds of entries of other topics, and of entries for the other direction. -/
def Lookup.leavesAlone (lookup : Lookup) (e : CacheEntry) : Bool :=
  !(e.topic = lookup.topic && e.isEncryption == lookup.isEncryption)

namespace Shared

open KeyCache

variable {ι : Type} {s t : Place ι}

/-- What becomes of the entries that a lookup loaded, when their update is written and read
again. -/
inductive Rewritten (lookup : Lookup) (answer : Except KeyError (Option KeyVersion))
    (entries stored : List CacheEntry) : Prop where
  /-- One encryption entry of the topic has a new expiry. -/
  | extended {old : CacheEntry} {kept : List CacheEntry} {expiresAt : Instant}
      (hlookup : lookup.isEncryption = true) (htopic : old.topic = lookup.topic)
      (henc : old.isEncryption = true) (hentries : entries.Perm (old :: kept))
      (hstored : stored.Perm ({ old with expiresAt := some expiresAt } :: kept))
  /-- There is one new entry, for the key that is answered. -/
  | added {key : KeyVersion} {expiresAt : Instant} (hanswer : answer = .ok (some key))
      (hversion : (lookup.entry key expiresAt).key.version ≠ 0)
      (hwritable : isWritable (lookup.entry key expiresAt) = true)
      (hstored : stored.Perm (asRead (lookup.entry key expiresAt) :: entries))
  /-- There is no new entry, because a line cannot say it. -/
  | dropped {key : KeyVersion} {expiresAt : Instant} (hanswer : answer = .ok (some key))
      (hlost : (lookup.entry key expiresAt).key.version = 0 ∨
        isWritable (lookup.entry key expiresAt) = false)
      (hstored : stored.Perm entries)

/-! ## Other entries -/

theorem topic_entry (lookup : Lookup) (key : KeyVersion) (expiresAt : Instant) :
    (lookup.entry key expiresAt).topic = lookup.topic := by
  cases lookup <;> rfl

theorem isEncryption_entry (lookup : Lookup) (key : KeyVersion) (expiresAt : Instant) :
    (lookup.entry key expiresAt).isEncryption = lookup.isEncryption := by
  cases lookup <;> rfl

theorem leavesAlone_eq_false {lookup : Lookup} {e : CacheEntry} (htopic : e.topic = lookup.topic)
    (henc : e.isEncryption = lookup.isEncryption) : lookup.leavesAlone e = false := by
  simp [Lookup.leavesAlone, htopic, henc]

/-- **Other entries are neither lost nor changed nor multiplied.** -/
theorem Rewritten.perm_others {lookup : Lookup} {answer : Except KeyError (Option KeyVersion)}
    {entries stored : List CacheEntry} (h : Rewritten lookup answer entries stored) :
    (stored.filter lookup.leavesAlone).Perm (entries.filter lookup.leavesAlone) := by
  cases h with
  | @extended old kept expiresAt hlookup htopic henc hentries hstored =>
    have hentries := hentries.filter lookup.leavesAlone
    have hstored := hstored.filter lookup.leavesAlone
    rw [List.filter_cons_of_neg (by simp [leavesAlone_eq_false htopic (henc.trans hlookup.symm)])]
      at hentries
    rw [List.filter_cons_of_neg (by
      simp [leavesAlone_eq_false (e := { old with expiresAt := some expiresAt }) htopic
        hlookup.symm])] at hstored
    exact hstored.trans hentries.symm
  | @added key expiresAt _ _ _ hstored =>
    have hstored := hstored.filter lookup.leavesAlone
    have hnew : lookup.leavesAlone (asRead (lookup.entry key expiresAt)) = false := by
      refine leavesAlone_eq_false (topic_entry lookup key expiresAt) ?_
      rw [← isEncryption_entry lookup key expiresAt, CacheEntry.isEncryption,
        CacheEntry.isEncryption, asRead, Option.isSome_map]
    rwa [List.filter_cons_of_neg (by simp [hnew])] at hstored
  | dropped _ _ hstored => exact hstored.filter _

/-! ## Updates -/

/-- A new entry is written after stable ones, or it is left out because a line cannot say it. -/
theorem rewritten_of_append (lookup : Lookup) (key : KeyVersion) (expiresAt : Instant)
    {answer : Except KeyError (Option KeyVersion)} {entries : List CacheEntry}
    (hstable : ∀ e ∈ entries, IsStable e) (hanswer : answer = .ok (some key))
    (hyear : ∀ t, (lookup.entry key expiresAt).expiresAt = some t → t.HasFourDigitYear) :
    Rewritten lookup answer entries
      (parse (serialize (entries ++ [lookup.entry key expiresAt]))) := by
  have hperm := perm_parse_serialize (entries ++ [lookup.entry key expiresAt])
  rw [List.filterMap_append, filterMap_stored?_of_isStable hstable] at hperm
  by_cases hstorable : IsStorable (lookup.entry key expiresAt)
  · rw [List.filterMap_cons_some (stored?_eq_some_iff.mpr ⟨hstorable, rfl⟩)] at hperm
    exact .added hanswer hstorable.version hstorable.writable
      (hperm.trans (List.perm_append_singleton _ _))
  · rw [List.filterMap_cons_none (stored?_eq_none_iff.mpr hstorable), List.filterMap_nil,
      List.append_nil] at hperm
    have hlost : (lookup.entry key expiresAt).key.version = 0 ∨
        isWritable (lookup.entry key expiresAt) = false := by
      by_contra hsayable
      rw [not_or, Bool.not_eq_false] at hsayable
      exact hstorable ⟨hsayable.2, hsayable.1, hyear⟩
    exact .dropped hanswer hlost hperm

/-- A stable entry with a new expiry is written beside stable ones. -/
theorem perm_parse_extend {entries : List CacheEntry} {position : Nat} {old : CacheEntry}
    {expiresAt : Instant} (hstable : ∀ e ∈ entries, IsStable e)
    (hold : entries[position]? = some old) (hyear : expiresAt.HasFourDigitYear) :
    (parse (serialize (extend entries position expiresAt))).Perm
      ({ old with expiresAt := some expiresAt.carry } :: entries.eraseIdx position) := by
  have hkept : ∀ e ∈ entries.eraseIdx position, IsStable e :=
    fun e he => hstable e (List.mem_of_mem_eraseIdx he)
  have hperm := (perm_parse_serialize _).trans ((perm_extend hold expiresAt).2.filterMap stored?)
  rwa [List.filterMap_cons_some ((hstable old (List.mem_of_getElem? hold)).extended hyear),
    filterMap_stored?_of_isStable hkept] at hperm

/-- What becomes of an update when it is written and read again. -/
theorem Update.rewritten {options : CachingOptions} {i : ι}
    {answer : Except KeyError (Option KeyVersion)} {entries updated : List CacheEntry}
    {lookup : Lookup} (h : Update options i s t answer entries lookup updated)
    (hstable : ∀ e ∈ entries, IsStable e)
    (hyears : ∀ now, Said s t ⟨.time i, now⟩ → now.HasFourDigitYear) :
    Rewritten lookup answer entries (parse (serialize updated)) := by
  cases h with
  | @extended topic position old expiresAt hbegins hold htopic henc =>
    obtain ⟨now, extra, hnow, -, rfl⟩ := hbegins
    have hyear := hasFourDigitYear_expiryAfter (hyears now hnow).1 options.ttl extra
    exact .extended rfl htopic henc (perm_extend hold (expiryAfter now options.ttl extra)).1
      (perm_parse_extend hstable hold hyear)
  | @added topic key expiresAt hbegins hanswer =>
    obtain ⟨now, extra, hnow, -, rfl⟩ := hbegins
    refine rewritten_of_append (.encryption topic) key _ hstable hanswer fun t ht => ?_
    obtain rfl := Option.some.inj ht
    exact hasFourDigitYear_expiryAfter (hyears now hnow).1 options.ttl extra
  | @addedOld topic version keyName material hanswer =>
    -- An old key gets no expiry, so any instant stands for the one that is left out.
    exact rewritten_of_append (.decryption topic version keyName) ⟨version, keyName, material⟩
      (.ofSecond 0) hstable hanswer fun t ht => absurd ht (Option.some_ne_none t).symm

/-! ## Lookups -/

/-- **No lookup loses or alters entries.**  Caches share a text that was empty at first.  A further
lookup leaves the text alone; or the text of what it wants to store is too long, and it stores no
entries; or it stores a text that is not too long and says the loaded entries, but for a new expiry
of one encryption entry of its topic, or for one new entry of its topic, if a line can say that. -/
theorem rewritten_of_gives {options : ι → CachingOptions}
    (hrun : Reaches (perform options) fresh s) {i : ι} {lookup : Lookup}
    {answer : Except KeyError (Option KeyVersion)}
    (h : Gives (lookUp (options i) i lookup) s answer t)
    (hyears : ∀ now, Said s t ⟨.time i, now⟩ → now.HasFourDigitYear) :
    t.1 = s.1 ∨ ∃ failure, Said s t ⟨.readText, failure⟩ ∧
      ((∃ updated, Update (options i) i s t answer (loaded s.1 failure) lookup updated ∧
          (options i).maxChars < (serialize updated).length ∧ t.1 = some KeyCache.empty) ∨
        ∃ text, t.1 = some text ∧ text.length ≤ (options i).maxChars ∧
          Rewritten lookup answer (loaded s.1 failure) (parse text) ∧
          ((parse text).filter lookup.leavesAlone).Perm
            ((loaded s.1 failure).filter lookup.leavesAlone)) := by
  refine (update_of_gives h).imp_right fun ⟨failure, updated, hread, hupdate, hstored⟩ => ?_
  refine ⟨failure, hread, ?_⟩
  rcases storedText_cases updated (options i).maxChars with ⟨hlong, htext⟩ | ⟨hshort, htext⟩
  · exact .inl ⟨updated, hupdate, hlong, hstored.trans (congrArg some htext)⟩
  · have hstable : ∀ e ∈ loaded s.1 failure, IsStable e :=
      fun e he => isStable_of_reaches hrun e ((loaded_sublist s.1 failure).mem he)
    have hrewritten := hupdate.rewritten hstable hyears
    exact .inr ⟨serialize updated, hstored.trans (congrArg some htext), hshort, hrewritten,
      hrewritten.perm_others⟩

/-! ## A storage that can be read -/

/-- The outside when nothing fails and no time passes. -/
def steady : (q : Question Unit) → Answer q
  | .readText => none
  | .writeText _ => (true, .ok ())
  | .time _ => .ofSecond 0
  | .jitter _ _ => .zero
  | .encryptionKey _ _ => .ok (some ⟨3, some "", "k"⟩)
  | .decryptionKey _ _ _ _ => .ok "k"
  | .vector _ => .ok []

/-- The old key of one topic stays where it is when the key of another topic is stored. -/
theorem rewritten_beside_other_topic :
    ∃ s t answer, Reaches (perform fun _ : Unit => .standard) fresh s ∧
      Gives (lookUp .standard () (.encryption "b")) s answer t ∧
      entriesOf s.1 = [.forDecryption "a" 1 none "k"] ∧ (entriesOf t.1).length = 2 ∧
      (t.1 = s.1 ∨ ∃ failure, Said s t ⟨.readText, failure⟩ ∧
        ((∃ updated, Update .standard () s t answer (loaded s.1 failure) (.encryption "b") updated ∧
            CachingOptions.standard.maxChars < (serialize updated).length ∧
            t.1 = some KeyCache.empty) ∨
          ∃ text, t.1 = some text ∧ text.length ≤ CachingOptions.standard.maxChars ∧
            Rewritten (.encryption "b") answer (loaded s.1 failure) (parse text) ∧
            ((parse text).filter (Lookup.encryption "b").leavesAlone).Perm
              ((loaded s.1 failure).filter (Lookup.encryption "b").leavesAlone))) := by
  let execution : Execution (Outside Unit) := (Dialogue.execution steady).layer
  let run := execution.follow (perform fun _ => .standard) fresh
    [.lookUp () (.decryption "a" 1 none)]
  let outcome := execution.run (lookUp .standard () (.encryption "b")) run.2
  have hrun : Reaches (perform fun _ => .standard) fresh run.2 :=
    (execution.run_follow _ _ _).reaches
  have hgives : Gives (lookUp .standard () (.encryption "b")) run.2 outcome.1 outcome.2 :=
    execution.gives_run _ _
  have hyears : ∀ now, Said run.2 outcome.2 ⟨.time (), now⟩ → now.HasFourDigitYear := by
    rintro now ⟨said, hsaid, hmem⟩
    obtain rfl := List.append_cancel_left hsaid
    have hanswer := Dialogue.answer_eq_of_mem_under steady _ hmem
    obtain rfl : now = .ofSecond 0 := by simpa [steady] using hanswer
    exact Instant.hasFourDigitYear_iff.mpr (by decide)
  -- The equations that `cbv` unfolds runs with are spread over the library, hence all of it above.
  exact ⟨run.2, outcome.2, outcome.1, hrun, hgives, by decide +kernel, by cbv,
    rewritten_of_gives hrun hgives hyears⟩

/-! ## A storage that cannot be read -/

/-- The outside when the storage cannot be read after a first lookup of an old key. -/
def unreadable (history : History Unit) : (q : Question Unit) → Answer q
  | .readText => if history.length < 3 then none else some .io
  | .writeText _ => (true, .ok ())
  | .time _ => .ofSecond 0
  | .jitter _ _ => .zero
  | .encryptionKey _ _ => .ok none
  | .decryptionKey _ _ _ _ => .ok "k"
  | .vector _ => .ok []

/-- It is not the *stored* entries that a lookup keeps: after a failure to read the text, the
entries of all topics are gone. -/
theorem not_forall_rewritten_stored :
    ¬ ∀ (options : Unit → CachingOptions) (s t : Place Unit) (lookup : Lookup)
      (answer : Except KeyError (Option KeyVersion)), Reaches (perform options) fresh s →
      Gives (lookUp (options ()) () lookup) s answer t →
      (∀ now ∈ readings t.2, now.HasFourDigitYear) →
      t.1 = s.1 ∨ t.1 = some KeyCache.empty ∨
        ∃ text, t.1 = some text ∧ Rewritten lookup answer (entriesOf s.1) (parse text) := by
  intro h
  let execution : Execution (Outside Unit) := (Dialogue.responsive unreadable).layer
  let run := execution.follow (perform fun _ => .standard) fresh
    [.lookUp () (.decryption "a" 1 none)]
  let outcome := execution.run (lookUp .standard () (.decryption "b" 1 none)) run.2
  have hrun : Reaches (perform fun _ => .standard) fresh run.2 :=
    (execution.run_follow _ _ _).reaches
  have hgives : Gives (lookUp .standard () (.decryption "b" 1 none)) run.2 outcome.1 outcome.2 :=
    execution.gives_run _ _
  have hbefore : entriesOf run.2.1 = [.forDecryption "a" 1 none "k"] := by decide +kernel
  have hafter : entriesOf outcome.2.1 = [.forDecryption "b" 1 none "k"] := by decide +kernel
  have hreadings : readings outcome.2.2 = [] := by decide +kernel
  have hyears : ∀ now ∈ readings outcome.2.2, now.HasFourDigitYear := by
    rw [hreadings]
    exact List.forall_mem_nil _
  rcases h (fun _ => .standard) _ _ _ _ hrun hgives hyears with
    hsame | hcleared | ⟨text, htext, hkept⟩
  · rw [hsame, hbefore] at hafter
    exact absurd hafter (by decide)
  · rw [hcleared, entriesOf_some, parse_empty] at hafter
    exact absurd hafter (by decide)
  · have hother := hkept.perm_others.length_eq
    rw [← entriesOf_some, ← htext, hafter, hbefore] at hother
    exact absurd hother (by decide)

end Shared

end TopicCipher
