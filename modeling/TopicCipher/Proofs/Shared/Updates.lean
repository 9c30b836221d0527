import Mathlib.Data.List.Perm.Basic
import TopicCipher.Proofs.KeyCache.Stored
import TopicCipher.Proofs.Shared.Caches

/-!
# Updates of the stored text

A lookup writes the stored text anew or leaves it alone.  When it writes, it writes all the entries
that it loaded, and it does one thing to them: it sets the expiry of one encryption entry of its
topic, or it adds one entry of its topic.  `Update` says which of them, and what it was done for.

An expiry is only set after the clock was read and no entry of the topic was found live at that
reading.  This is what all statements about expiries rest on.

* `Revision`: what a lookup makes of the entries, with all that was said about it, and
  `revision_of_gives`: a lookup stores a revision or keeps the text.
* `update_of_gives`: what a lookup does to the stored text.
* `sublist_or_revision_of_gives`: what any call does to the stored entries.
* `Update.exists_perm`: an update concerns one entry, and that one has the topic of the lookup.
* `isStable_of_reaches`: whatever is stored, is stored without loss from then on.
-/

namespace TopicCipher.Shared

open KeyCache

variable {ι : Type} {options : CachingOptions} {i : ι} {s t : Place ι}

/-- The lookup between the places reads the clock, finds no entry of the topic live then, and counts
the expiry from there. -/
def Begins (options : CachingOptions) (i : ι) (s t : Place ι) (entries : List CacheEntry)
    (topic : String) (expiresAt : Instant) : Prop :=
  ∃ now extra, Said s t ⟨.time i, now⟩ ∧ liveEntries entries topic now = [] ∧
    expiresAt = expiryAfter now options.ttl extra

/-- What a lookup between two places makes of the entries that it loaded, if it gives an answer and
writes. -/
inductive Update (options : CachingOptions) (i : ι) (s t : Place ι)
    (answer : Except KeyError (Option KeyVersion)) (entries : List CacheEntry) :
    Lookup → List CacheEntry → Prop where
  /-- One encryption entry of the topic lives on. -/
  | extended {topic : String} {position : Nat} {old : CacheEntry} {expiresAt : Instant}
      (hbegins : Begins options i s t entries topic expiresAt)
      (hold : entries[position]? = some old) (htopic : old.topic = topic)
      (henc : old.isEncryption = true) :
      Update options i s t answer entries (.encryption topic) (extend entries position expiresAt)
  /-- The key that is answered gets an entry. -/
  | added {topic : String} {key : KeyVersion} {expiresAt : Instant}
      (hbegins : Begins options i s t entries topic expiresAt) (hanswer : answer = .ok (some key)) :
      Update options i s t answer entries (.encryption topic)
        (entries ++ [.forEncryption topic key expiresAt])
  /-- The old key that is answered gets an entry. -/
  | addedOld {topic : String} {version : Version} {keyName : Option String} {material : String}
      (hanswer : answer = .ok (some ⟨version, keyName, material⟩)) :
      Update options i s t answer entries (.decryption topic version keyName)
        (entries ++ [.forDecryption topic version keyName material])

/-- Holds of the questions that go to a source behind a cache. -/
@[simp] def Question.isForSource : Question ι → Bool
  | .encryptionKey _ _ => true
  | .decryptionKey _ _ _ _ => true
  | _ => false

/-- Between two places, a source behind a cache was asked for a key. -/
def AsksSource (s t : Place ι) : Prop :=
  ∃ exchange, Said s t exchange ∧ exchange.question.isForSource = true

theorem not_asksSource {text new : Option String} {history said : History ι}
    (h : ∀ exchange ∈ said, exchange.question.isForSource = false) :
    ¬ AsksSource (text, history) (new, history ++ said) := by
  rintro ⟨exchange, hsaid, hasks⟩
  rw [h exchange (said_append_iff.mp hsaid)] at hasks
  exact absurd hasks Bool.false_ne_true

/-- What a lookup between two places makes of the entries that it loaded, with all that was said
about it. -/
inductive Revision (options : CachingOptions) (i : ι) (s t : Place ι) (entries : List CacheEntry) :
    Lookup → Except KeyError (Option KeyVersion) → List CacheEntry → Prop where
  /-- The source behind answered with a key for the topic. -/
  | renewed {topic : String} {now : Instant} {newest : Option Nat} {key : KeyVersion} {extra : Span}
      (hnow : Said s t ⟨.time i, now⟩)
      (hfind : findEncryption entries topic now = .expired newest)
      (hasked : Said s t ⟨.encryptionKey i topic, .ok (some key)⟩)
      (hextra : Said s t ⟨.jitter i options.maxJitter, extra⟩) :
      Revision options i s t entries (.encryption topic) (.ok (some key))
        (renew entries newest topic key (expiryAfter now options.ttl extra))
  /-- The source behind suffers an outage, which the best expired entry bridges. -/
  | bridged {topic : String} {now : Instant} {position : Nat} {stale : CacheEntry} {err : KeyError}
      {extra : Span} (hnow : Said s t ⟨.time i, now⟩)
      (hfind : findEncryption entries topic now = .expired (some position))
      (hasked : Said s t ⟨.encryptionKey i topic, .error err⟩) (houtage : err.isOutage = true)
      (hstale : entries[position]? = some stale)
      (hextra : Said s t ⟨.jitter i options.maxJitter, extra⟩) :
      Revision options i s t entries (.encryption topic) (.ok (some stale.key))
        (extend entries position (expiryAfter now options.ttl extra))
  /-- The source behind answered with an old key. -/
  | added {topic : String} {version : Version} {keyName : Option String} {material : String}
      (hfind : findDecryption entries topic version keyName = .absent)
      (hasked : Said s t ⟨.decryptionKey i topic version keyName, .ok material⟩) :
      Revision options i s t entries (.decryption topic version keyName)
        (.ok (some ⟨version, keyName, material⟩))
        (entries ++ [.forDecryption topic version keyName material])

/-! ## What lookups do -/

theorem rewritten_cases (text : Option String) (new : String)
    (stored : Bool × Except StorageError Unit) :
    rewritten text new stored = text ∨ rewritten text new stored = some new := by
  rw [rewritten]
  split
  · exact .inr rfl
  · exact .inl rfl

/-- An attempt to forget everything brings no entries. -/
theorem entriesOf_cleared_sublist (text : Option String)
    (stored : Bool × Except StorageError Unit) :
    (entriesOf (rewritten text KeyCache.empty stored)).Sublist (entriesOf text) := by
  rcases rewritten_cases text KeyCache.empty stored with hsame | hcleared
  · rw [hsame]
  · rw [hcleared, entriesOf_some, parse_empty]
    exact List.nil_sublist _

/-- Renewing is an update. -/
theorem update_renew {topic : String} {key : KeyVersion} {entries : List CacheEntry}
    {newest : Option Nat} {expiresAt : Instant} (hnewest : newest? entries topic = newest)
    (hbegins : Begins options i s t entries topic expiresAt) :
    Update options i s t (.ok (some key)) entries (.encryption topic)
      (renew entries newest topic key expiresAt) := by
  rcases renew_eq entries newest topic key expiresAt with
    ⟨position, old, rfl, hold, -, hrenew⟩ | ⟨-, hrenew⟩
  · obtain ⟨e, he, htopic, henc⟩ := exists_mem_of_newest? hnewest
    obtain rfl := Option.some.inj (hold.symm.trans he)
    rw [hrenew]
    exact .extended hbegins hold htopic henc
  · rw [hrenew]
    exact .added hbegins rfl

theorem Revision.update {lookup : Lookup} {answer : Except KeyError (Option KeyVersion)}
    {entries updated : List CacheEntry} (h : Revision options i s t entries lookup answer updated) :
    Update options i s t answer entries lookup updated := by
  cases h with
  | renewed hnow hfind _ _ =>
    exact update_renew (newest?_eq_of_findEncryption hfind)
      ⟨_, _, hnow, liveEntries_eq_nil_of_findEncryption hfind, rfl⟩
  | bridged hnow hfind _ _ _ _ =>
    obtain ⟨e, he, htopic, henc⟩ := exists_mem_of_newest? (newest?_eq_of_findEncryption hfind)
    exact .extended ⟨_, _, hnow, liveEntries_eq_nil_of_findEncryption hfind, rfl⟩ he htopic henc
  | added _ _ => exact .addedOld rfl

/-- **A lookup stores a revision or keeps the text**, and it stores one whenever it has a key after
it asked the source behind. -/
theorem revision_of_gives {lookup : Lookup} {answer : Except KeyError (Option KeyVersion)}
    (h : Gives (lookUp options i lookup) s answer t) :
    (t.1 = s.1 ∧ (AsksSource s t → ∀ key, answer ≠ .ok (some key))) ∨
      ∃ failure updated stored, Said s t ⟨.readText, failure⟩ ∧
        Revision options i s t (loaded s.1 failure) lookup answer updated ∧
        Said s t ⟨.writeText (storedText updated options.maxChars), stored⟩ ∧
        t.1 = rewritten s.1 (storedText updated options.maxChars) stored := by
  obtain ⟨text, history⟩ := s
  cases lookup with
  | encryption topic =>
    cases encryptionTurn_of_gives h with
    | served _ => exact .inl ⟨rfl, fun hasks => absurd hasks (not_asksSource (by simp))⟩
    | ambiguous _ => exact .inl ⟨rfl, fun hasks => absurd hasks (not_asksSource (by simp))⟩
    | unkeyed _ => exact .inl ⟨rfl, fun _ _ => by simp⟩
    | failed _ _ => exact .inl ⟨rfl, fun _ _ => by simp⟩
    | fetched hfind hnew =>
      subst hnew
      exact .inr ⟨_, _, _, by simp, .renewed (by simp) hfind (by simp) (by simp), by simp, rfl⟩
    | bridged hfind houtage hstale hnew =>
      subst hnew
      exact .inr ⟨_, _, _, by simp, .bridged (by simp) hfind (by simp) houtage hstale (by simp),
        by simp, rfl⟩
  | decryption topic version keyName =>
    obtain ⟨found, rfl, hfound⟩ := gives_lookUp_decryption.mp h
    cases decryptionTurn_of_gives hfound with
    | served _ => exact .inl ⟨rfl, fun hasks => absurd hasks (not_asksSource (by simp))⟩
    | ambiguous _ => exact .inl ⟨rfl, fun hasks => absurd hasks (not_asksSource (by simp))⟩
    | failed _ => exact .inl ⟨rfl, fun _ _ => by simp [Except.map]⟩
    | fetched hfind hnew =>
      subst hnew
      exact .inr ⟨_, _, _, by simp, .added hfind (by simp), by simp, rfl⟩

/-- **What a lookup does to the stored text**: nothing, or it stores an update of the entries that
it loaded. -/
theorem update_of_gives {lookup : Lookup} {answer : Except KeyError (Option KeyVersion)}
    (h : Gives (lookUp options i lookup) s answer t) :
    t.1 = s.1 ∨ ∃ failure updated, Said s t ⟨.readText, failure⟩ ∧
      Update options i s t answer (loaded s.1 failure) lookup updated ∧
      t.1 = some (storedText updated options.maxChars) := by
  rcases revision_of_gives h with
    ⟨hsame, -⟩ | ⟨failure, updated, stored, hread, hrevision, -, hstored⟩
  · exact .inl hsame
  · rw [hstored]
    exact (rewritten_cases s.1 (storedText updated options.maxChars) stored).imp_right fun hnew =>
      ⟨failure, updated, hread, hrevision.update, hnew⟩

/-- **What a call does to the stored entries**: it takes some of them away, or a lookup stores a
revision of those that it loaded. -/
theorem sublist_or_revision_of_gives {options : ι → CachingOptions} {call : Call ι}
    (h : Gives (perform options call) s () t) :
    (entriesOf t.1).Sublist (entriesOf s.1) ∨
      ∃ i lookup answer failure updated,
        Revision (options i) i s t (loaded s.1 failure) lookup answer updated ∧
          entriesOf t.1 = parse (serialize updated) := by
  cases call with
  | clear i =>
    obtain ⟨stored, rfl⟩ := gives_clear.mp h
    exact .inl (entriesOf_cleared_sublist s.1 stored)
  | lookUp i lookup =>
    obtain ⟨answer, hlookup⟩ := gives_perform_lookUp.mp h
    rcases revision_of_gives hlookup with
      ⟨hsame, -⟩ | ⟨failure, updated, stored, -, hrevision, -, htext⟩
    · rw [hsame]
      exact .inl (.refl _)
    · rw [htext]
      rcases rewritten_cases s.1 (storedText updated (options i).maxChars) stored with hkept | hnew
      · rw [hkept]
        exact .inl (.refl _)
      · rw [hnew, entriesOf_some]
        rcases storedText_cases updated (options i).maxChars with ⟨-, hlong⟩ | ⟨-, hshort⟩
        · rw [hlong, parse_empty]
          exact .inl (List.nil_sublist _)
        · rw [hshort]
          exact .inr ⟨i, lookup, answer, failure, updated, hrevision, rfl⟩

/-! ## What updates change -/

/-- Extending the life of an entry leaves the others as they are. -/
theorem perm_extend {entries : List CacheEntry} {position : Nat} {old : CacheEntry}
    (hold : entries[position]? = some old) (expiresAt : Instant) :
    entries.Perm (old :: entries.eraseIdx position) ∧
      (extend entries position expiresAt).Perm
        ({ old with expiresAt := some expiresAt } :: entries.eraseIdx position) := by
  obtain ⟨hposition, rfl⟩ := List.getElem?_eq_some_iff.mp hold
  refine ⟨(List.getElem_cons_eraseIdx_perm hposition).symm, ?_⟩
  have hextended : position < (extend entries position expiresAt).length := by
    rw [extend, List.length_modify]
    exact hposition
  have hperm := (List.getElem_cons_eraseIdx_perm hextended).symm
  simp only [extend, List.getElem_modify_eq, List.eraseIdx_modify_of_eq] at hperm
  exact hperm

/-- An update concerns one entry, and that one has the topic of the lookup. -/
theorem Update.exists_perm {answer : Except KeyError (Option KeyVersion)}
    {entries updated : List CacheEntry} {lookup : Lookup}
    (h : Update options i s t answer entries lookup updated) :
    ∃ new kept, updated.Perm (new :: kept) ∧ kept.Sublist entries ∧ new.topic = lookup.topic ∧
      new.isEncryption = lookup.isEncryption := by
  cases h with
  | extended _ hold htopic henc =>
    exact ⟨_, _, (perm_extend hold _).2, List.eraseIdx_sublist _ _, htopic, rfl⟩
  | added _ _ => exact ⟨_, _, List.perm_append_singleton _ _, .refl _, rfl, rfl⟩
  | addedOld _ => exact ⟨_, _, List.perm_append_singleton _ _, .refl _, rfl, rfl⟩

/-- What holds of all entries, of those with a new expiry and of new ones holds of all entries of a
revision. -/
theorem Revision.forall_mem {V : CacheEntry → Prop} {lookup : Lookup}
    {answer : Except KeyError (Option KeyVersion)} {entries updated : List CacheEntry}
    (h : Revision options i s t entries lookup answer updated) (hentries : ∀ e ∈ entries, V e)
    (hlonger : ∀ e now extra, e ∈ entries → Said s t ⟨.time i, now⟩ →
      V { e with expiresAt := some (expiryAfter now options.ttl extra) })
    (hnew : ∀ topic key now extra, Said s t ⟨.time i, now⟩ →
      Said s t ⟨.encryptionKey i topic, .ok (some key)⟩ →
      V (.forEncryption topic key (expiryAfter now options.ttl extra)))
    (hold : ∀ topic version keyName material, V (.forDecryption topic version keyName material)) :
    ∀ e ∈ updated, V e := by
  cases h with
  | renewed hnow _ hasked _ =>
    exact forall_mem_renew hentries
      (fun _ e _ he => hlonger e _ _ (List.mem_of_getElem? he) hnow) (hnew _ _ _ _ hnow hasked)
  | bridged hnow _ _ _ _ _ =>
    exact forall_mem_extend hentries fun e he => hlonger e _ _ (List.mem_of_getElem? he) hnow
  | added _ _ =>
    exact List.forall_mem_append.mpr ⟨hentries, List.forall_mem_singleton.mpr (hold _ _ _ _)⟩

/-! ## What is stored -/

/-- Whatever is stored, reads alike from then on. -/
theorem asRead_of_mem_entriesOf {text : Option String} : ∀ e ∈ entriesOf text, asRead e = e := by
  intro e he
  cases text with
  | none => exact absurd he List.not_mem_nil
  | some text => exact asRead_of_mem_parse he

/-- No call stores what it could not store again. -/
theorem keeps_isStable (options : ι → CachingOptions) (call : Call ι) :
    Keeps (perform options call) fun s => ∀ e ∈ entriesOf s.1, IsStable e := by
  intro s _ t hs hgives
  rcases sublist_or_revision_of_gives hgives with hkept | ⟨_, _, _, _, updated, -, hstored⟩
  · exact fun e he => hs e (hkept.mem he)
  · rw [hstored]
    exact fun e he => isStable_of_mem_parse_serialize he

/-- **Whatever is stored, is stored without loss from then on.** -/
theorem isStable_of_reaches {options : ι → CachingOptions} (h : Reaches (perform options) fresh s) :
    ∀ e ∈ entriesOf s.1, IsStable e :=
  h.invariant (I := fun s => ∀ e ∈ entriesOf s.1, IsStable e) (keeps_isStable options)
    fun _ he => absurd he List.not_mem_nil

end TopicCipher.Shared
