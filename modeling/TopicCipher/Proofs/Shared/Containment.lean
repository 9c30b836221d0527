import TopicCipher.Proofs.Determined
import TopicCipher.Proofs.KeyCache.Best
import TopicCipher.Proofs.Shared.Lifetime

/-!
# What goes wrong stays where it went wrong

A cache is there to help.  When its storage is out of order, it should not be worse than no cache,
and when the source behind is out of order, it should not make anything worse than that.

A lookup is a conversation, and the entries that it finds among those that it loaded decide how it
goes.  One entry that is not contradicted is served.  Entries that contradict each other are
reported.  If there is none, the source behind is asked, once, and its answer is passed on or stored
(`Course`).  What the storage said has no other influence: a text that cannot be read is loaded as
no entries, and the answer is known before anything is written.

* `course_of_gives`: the four courses that a lookup can take.
* `exists_gives_of_alike`: a conversation in which another text was loaded to the same entries, or
  in which writing went another way, is possible, and ends with the same answer.
* `contained_of_gives`: what all of this means for failures.
-/

namespace TopicCipher

namespace Lookup

variable {ι : Type}

/-- What a cache asks the source behind it. -/
def question (i : ι) : Lookup → Shared.Question ι
  | encryption topic => .encryptionKey i topic
  | decryption topic version keyName => .decryptionKey i topic version keyName

/-- The source behind is asked, and fails. -/
def refusal (i : ι) (err : KeyError) : Lookup → Exchange (Shared.Question ι) Shared.Answer
  | encryption topic => ⟨.encryptionKey i topic, .error err⟩
  | decryption topic version keyName => ⟨.decryptionKey i topic version keyName, .error err⟩

/-- What is said about the time: the clock is read for keys to encrypt under only. -/
def clock (i : ι) (now : Instant) : Lookup → Shared.History ι
  | encryption _ => [⟨.time i, now⟩]
  | decryption _ _ _ => []

/-- The entries that are found contradict each other: two of them are live, or they have two
materials of one old key. -/
def Contradicts : Lookup → List CacheEntry → Prop
  | encryption _, found => 2 ≤ found.length
  | decryption _ _ _, found => ∃ a ∈ found, ∃ b ∈ found, a.key.material ≠ b.key.material

/-- Nothing does not contradict itself. -/
theorem not_contradicts_nil (lookup : Lookup) : ¬ lookup.Contradicts [] := by
  cases lookup with
  | encryption _ => exact Nat.not_succ_le_zero 1
  | decryption _ _ _ =>
    rintro ⟨a, ha, -⟩
    exact absurd ha List.not_mem_nil

end Lookup

namespace Shared

open KeyCache

variable {ι : Type} {options : CachingOptions} {i : ι}

/-! ## What the entries decide -/

/-- What a lookup of the key to encrypt under does is decided by the live entries that it finds. -/
theorem findEncryption_cases (entries : List CacheEntry) (topic : String) (now : Instant) :
    let found := entries.filter ((Lookup.encryption topic).finds now)
    (∃ e, found = [e] ∧ findEncryption entries topic now = .served e.key) ∨
    (2 ≤ found.length ∧ findEncryption entries topic now = .ambiguous found.length) ∨
    (found = [] ∧ findEncryption entries topic now = .expired (newest? entries topic)) := by
  intro found
  have hlive : liveEntries entries topic now = found := rfl
  rw [findEncryption, hlive]
  rcases found with _ | ⟨e, _ | ⟨other, rest⟩⟩
  · exact .inr (.inr ⟨rfl, rfl⟩)
  · exact .inl ⟨e, rfl, rfl⟩
  · exact .inr (.inl ⟨Nat.le_add_left 2 rest.length, rfl⟩)

/-- What a lookup of an old key does is decided by the entries of the key. -/
theorem findDecryption_cases (entries : List CacheEntry) (topic : String) (version : Version)
    (keyName : Option String) (now : Instant) :
    let lookup : Lookup := .decryption topic version keyName
    let found := entries.filter (lookup.finds now)
    (∃ e ∈ found, ¬ lookup.Contradicts found ∧
      findDecryption entries topic version keyName = .served e.key.material) ∨
    (lookup.Contradicts found ∧
      findDecryption entries topic version keyName = .ambiguous found.length) ∨
    (found = [] ∧ findDecryption entries topic version keyName = .absent) := by
  intro lookup found
  have hfound : (entries.filter fun e => !e.isEncryption && e.topic = topic &&
      e.key.version = version && e.key.keyName = keyName) = found := rfl
  rw [findDecryption, hfound]
  rcases found with _ | ⟨first, rest⟩
  · exact .inr (.inr ⟨rfl, rfl⟩)
  · by_cases hany : rest.any (·.key.material ≠ first.key.material) = true
    · obtain ⟨other, hother, hne⟩ := List.any_eq_true.mp hany
      refine .inr (.inl ⟨⟨other, List.mem_cons_of_mem _ hother, first, List.mem_cons_self,
        of_decide_eq_true hne⟩, ?_⟩)
      simp only [hany, if_true, List.length_cons]
    · refine .inl ⟨first, List.mem_cons_self, ?_, ?_⟩
      · have hsame : ∀ e ∈ first :: rest, e.key.material = first.key.material := by
          refine List.forall_mem_cons.mpr ⟨rfl, fun e he => ?_⟩
          by_contra hne
          exact hany (List.any_eq_true.mpr ⟨e, he, decide_eq_true hne⟩)
        rintro ⟨a, ha, b, hb, hne⟩
        exact hne ((hsame a ha).trans (hsame b hb).symm)
      · simp only [hany, Bool.false_eq_true, if_false]

/-! ## Courses -/

/-- The courses that a lookup can take, by the entries that it found: its answer, the text that it
leaves behind, and what is said after the clock was read. -/
inductive Course (i : ι) (lookup : Lookup) (found : List CacheEntry) (text : Option String) :
    Except KeyError (Option KeyVersion) → Option String → History ι → Prop where
  /-- An entry that is not contradicted is served. -/
  | served {e : CacheEntry} (hmem : e ∈ found) (hagree : ¬ lookup.Contradicts found) :
      Course i lookup found text (.ok (some e.key)) text []
  /-- A contradiction is reported. -/
  | ambiguous (hcontra : lookup.Contradicts found) :
      Course i lookup found text (.error (.ambiguity lookup.topic found.length)) text []
  /-- The source behind has no key, and nothing is stored. -/
  | passed {answer : Except KeyError (Option KeyVersion)}
      {asked : Exchange (Question ι) Answer} (hnone : found = [])
      (hasked : asked.question = lookup.question i) (hkeyless : ∀ key, answer ≠ .ok (some key))
      (hfails : ∀ err, asked = lookup.refusal i err ↔ answer = .error err) :
      Course i lookup found text answer text [asked]
  /-- There is a key after the source behind was asked, and an attempt is made to store it. -/
  | stored {key : KeyVersion} {new : Option String} {asked : Exchange (Question ι) Answer}
      {rest : History ι} (hnone : found = []) (hasked : asked.question = lookup.question i)
      (houtage : ∀ err, asked = lookup.refusal i err →
        lookup.isEncryption = true ∧ ∃ reason, err = .store reason)
      (hrest : ∀ exchange ∈ rest, exchange.question.isForSource = false) :
      Course i lookup found text (.ok (some key)) new (asked :: rest)

/-- Only an outage of the store counts as an outage. -/
theorem exists_reason_of_isOutage {err : KeyError} (h : err.isOutage = true) :
    ∃ reason, err = .store reason := by
  cases err with
  | store reason => exact ⟨reason, rfl⟩
  | _ => exact absurd h Bool.false_ne_true

theorem course_of_encryptionTurn {topic : String} {text : Option String} {history : History ι}
    {answer : Except KeyError (Option KeyVersion)} {t : Place ι}
    (h : EncryptionTurn options i topic text history answer t) :
    ∃ failure now rest,
      t.2 = history ++ ⟨.readText, failure⟩ :: ((Lookup.encryption topic).clock i now ++ rest) ∧
      Course i (.encryption topic)
        ((loaded text failure).filter ((Lookup.encryption topic).finds now)) text answer
          t.1 rest := by
  cases h with
  | @served failure now key hfind =>
    refine ⟨failure, now, [], rfl, ?_⟩
    rcases findEncryption_cases (loaded text failure) topic now with
      ⟨e, hfound, hserved⟩ | ⟨-, hother⟩ | ⟨-, hother⟩
    · obtain rfl : key = e.key := EncryptionFind.served.inj (hfind.symm.trans hserved)
      rw [hfound]
      exact .served (List.mem_singleton_self e) (Nat.not_succ_le_self 1)
    · exact absurd (hfind.symm.trans hother) (by simp)
    · exact absurd (hfind.symm.trans hother) (by simp)
  | @ambiguous failure now candidates hfind =>
    refine ⟨failure, now, [], rfl, ?_⟩
    rcases findEncryption_cases (loaded text failure) topic now with
      ⟨e, -, hother⟩ | ⟨hcontra, hambiguous⟩ | ⟨-, hother⟩
    · exact absurd (hfind.symm.trans hother) (by simp)
    · obtain rfl := EncryptionFind.ambiguous.inj (hfind.symm.trans hambiguous)
      exact .ambiguous hcontra
    · exact absurd (hfind.symm.trans hother) (by simp)
  | @unkeyed failure now newest hfind =>
    refine ⟨failure, now, [⟨.encryptionKey i topic, .ok none⟩], rfl, ?_⟩
    exact .passed (liveEntries_eq_nil_of_findEncryption hfind) rfl (by simp)
      (by simp [Lookup.refusal])
  | @failed failure now newest err hfind _ =>
    refine ⟨failure, now, [⟨.encryptionKey i topic, .error err⟩], rfl, ?_⟩
    exact .passed (liveEntries_eq_nil_of_findEncryption hfind) rfl (by simp)
      (by simp [Lookup.refusal])
  | @fetched failure now newest key extra new stored hfind _ =>
    refine ⟨failure, now, [⟨.encryptionKey i topic, .ok (some key)⟩,
      ⟨.jitter i options.maxJitter, extra⟩, ⟨.writeText new, stored⟩], rfl, ?_⟩
    exact .stored (liveEntries_eq_nil_of_findEncryption hfind) rfl (by simp [Lookup.refusal])
      (by simp)
  | @bridged failure now position stale err extra new stored hfind houtage _ _ =>
    refine ⟨failure, now, [⟨.encryptionKey i topic, .error err⟩,
      ⟨.jitter i options.maxJitter, extra⟩, ⟨.writeText new, stored⟩], rfl, ?_⟩
    refine .stored (liveEntries_eq_nil_of_findEncryption hfind) rfl
      (fun other hother => ?_) (by simp)
    obtain rfl : err = other := by simpa [Lookup.refusal] using hother
    exact ⟨rfl, exists_reason_of_isOutage houtage⟩

theorem course_of_decryptionTurn {topic : String} {version : Version} {keyName : Option String}
    {text : Option String} {history : History ι} {found : Except KeyError String} {t : Place ι}
    (h : DecryptionTurn options i topic version keyName text history found t) (now : Instant) :
    ∃ failure rest, t.2 = history ++ ⟨.readText, failure⟩ :: rest ∧
      Course i (.decryption topic version keyName)
        ((loaded text failure).filter ((Lookup.decryption topic version keyName).finds now)) text
        (found.map fun material => some ⟨version, keyName, material⟩) t.1 rest := by
  cases h with
  | @served failure material hfind =>
    refine ⟨failure, [], rfl, ?_⟩
    rcases findDecryption_cases (loaded text failure) topic version keyName now with
      ⟨e, hmem, hagree, hserved⟩ | ⟨-, hother⟩ | ⟨-, hother⟩
    · obtain rfl := DecryptionFind.served.inj (hfind.symm.trans hserved)
      have hnamed := (List.mem_filter.mp hmem).2
      simp only [Lookup.finds, Bool.and_eq_true, decide_eq_true_eq] at hnamed
      obtain ⟨⟨-, hversion⟩, hname⟩ := hnamed
      have hkey : e.key = ⟨version, keyName, e.key.material⟩ := by rw [← hversion, ← hname]
      have hcourse : Course i _ _ text (.ok (some e.key)) text [] := .served hmem hagree
      rwa [hkey] at hcourse
    · exact absurd (hfind.symm.trans hother) (by simp)
    · exact absurd (hfind.symm.trans hother) (by simp)
  | @ambiguous failure candidates hfind =>
    refine ⟨failure, [], rfl, ?_⟩
    rcases findDecryption_cases (loaded text failure) topic version keyName now with
      ⟨e, -, -, hother⟩ | ⟨hcontra, hambiguous⟩ | ⟨-, hother⟩
    · exact absurd (hfind.symm.trans hother) (by simp)
    · obtain rfl := DecryptionFind.ambiguous.inj (hfind.symm.trans hambiguous)
      exact .ambiguous hcontra
    · exact absurd (hfind.symm.trans hother) (by simp)
  | @failed failure err hfind =>
    refine ⟨failure, [⟨.decryptionKey i topic version keyName, .error err⟩], rfl, ?_⟩
    show Course i _ _ text (.error err) text _
    exact .passed (filter_finds_eq_nil_of_absent hfind now) rfl (by simp) (by simp [Lookup.refusal])
  | @fetched failure material new stored hfind _ =>
    refine ⟨failure, [⟨.decryptionKey i topic version keyName, .ok material⟩,
      ⟨.writeText new, stored⟩], rfl, ?_⟩
    exact .stored (filter_finds_eq_nil_of_absent hfind now) rfl (by simp [Lookup.refusal]) (by simp)

/-- **A lookup takes one of four courses**, and the entries that it finds decide which. -/
theorem course_of_gives {lookup : Lookup} {s t : Place ι}
    {answer : Except KeyError (Option KeyVersion)}
    (h : Gives (lookUp options i lookup) s answer t) :
    ∃ failure now rest, t.2 = s.2 ++ ⟨.readText, failure⟩ :: (lookup.clock i now ++ rest) ∧
      Course i lookup ((loaded s.1 failure).filter (lookup.finds now)) s.1 answer t.1 rest := by
  obtain ⟨text, history⟩ := s
  cases lookup with
  | encryption topic => exact course_of_encryptionTurn (encryptionTurn_of_gives h)
  | decryption topic version keyName =>
    obtain ⟨found, rfl, hlookup⟩ := gives_lookUp_decryption.mp h
    -- The clock is not read, so any instant will do.
    obtain ⟨failure, rest, hsaid, hcourse⟩ :=
      course_of_decryptionTurn (decryptionTurn_of_gives hlookup) (.ofSecond 0)
    exact ⟨failure, .ofSecond 0, rest, hsaid, hcourse⟩

/-! ## What the storage has no influence on -/

/-- The exchanges are the same, or both write the same text, with whatever success. -/
inductive Alike : Exchange (Question ι) Answer → Exchange (Question ι) Answer → Prop where
  | same (exchange : Exchange (Question ι) Answer) : Alike exchange exchange
  | written (text : String) (first second : Bool × Except StorageError Unit) :
      Alike ⟨.writeText text, first⟩ ⟨.writeText text, second⟩

/-- Holds of questions that write a text. -/
def Question.isWrite : Question ι → Bool
  | .writeText _ => true
  | _ => false

/-- Where no text is written, the same is said. -/
theorem eq_of_forall₂_alike {said others : History ι} (h : List.Forall₂ Alike said others)
    (hsaid : ∀ exchange ∈ said, exchange.question.isWrite = false) : others = said := by
  induction h with
  | nil => rfl
  | cons halike _ ih =>
    obtain ⟨hfirst, hrest⟩ := List.forall_mem_cons.mp hsaid
    rw [ih hrest]
    cases halike with
    | same => rfl
    | written => exact absurd hfirst Bool.true_eq_false.mp

/-- Where a text is written in the end, the same text is written, with whatever success. -/
theorem exists_written_of_forall₂_alike {said others : History ι} {text : String}
    {stored : Bool × Except StorageError Unit}
    (h : List.Forall₂ Alike (said ++ [⟨.writeText text, stored⟩]) others)
    (hsaid : ∀ exchange ∈ said, exchange.question.isWrite = false) :
    ∃ stored', others = said ++ [⟨.writeText text, stored'⟩] := by
  induction said generalizing others with
  | nil =>
    obtain ⟨other, rest, halike, hrest, rfl⟩ := List.forall₂_cons_left_iff.mp h
    obtain rfl := List.forall₂_nil_left_iff.mp hrest
    cases halike with
    | same => exact ⟨stored, rfl⟩
    | written _ _ second => exact ⟨second, rfl⟩
  | cons exchange said ih =>
    obtain ⟨other, rest, halike, hrest, rfl⟩ := List.forall₂_cons_left_iff.mp h
    obtain ⟨hfirst, hsaid⟩ := List.forall_mem_cons.mp hsaid
    obtain ⟨stored', rfl⟩ := ih hrest hsaid
    cases halike with
    | same => exact ⟨stored', rfl⟩
    | written => exact absurd hfirst Bool.true_eq_false.mp

variable {text text' : Option String} {history history' said rest rest' : History ι}
  {before failure failure' : Option StorageError}

/-- If nothing is written in a conversation, one that is like it says the same and loads the
same. -/
theorem alike_unwritten
    (hsaid : history ++ ⟨.readText, before⟩ :: said = history ++ ⟨.readText, failure⟩ :: rest)
    (hloaded : loaded text' failure' = loaded text failure)
    (halike : List.Forall₂ Alike rest rest')
    (hquiet : ∀ exchange ∈ said, exchange.question.isWrite = false) :
    rest' = said ∧ loaded text before = loaded text' failure' := by
  obtain ⟨hread, rfl⟩ := List.cons.inj (List.append_cancel_left hsaid)
  obtain rfl := eq_of_heq (Exchange.mk.inj hread).2
  exact ⟨eq_of_forall₂_alike halike hquiet, hloaded.symm⟩

/-- If a text is written in the end, a conversation that is like it writes the same text. -/
theorem alike_written {new : String} {stored : Bool × Except StorageError Unit}
    (hsaid : history ++ ⟨.readText, before⟩ :: said = history ++ ⟨.readText, failure⟩ :: rest)
    (hloaded : loaded text' failure' = loaded text failure)
    (halike : List.Forall₂ Alike rest rest')
    (hlast : said.getLast? = some ⟨.writeText new, stored⟩)
    (hquiet : ∀ exchange ∈ said.dropLast, exchange.question.isWrite = false) :
    ∃ stored', rest' = said.dropLast ++ [⟨.writeText new, stored'⟩] ∧
      loaded text before = loaded text' failure' := by
  obtain ⟨hread, rfl⟩ := List.cons.inj (List.append_cancel_left hsaid)
  obtain rfl := eq_of_heq (Exchange.mk.inj hread).2
  obtain ⟨first, rfl⟩ := List.getLast?_eq_some_iff.mp hlast
  rw [List.dropLast_concat] at hquiet ⊢
  obtain ⟨stored', hwritten⟩ := exists_written_of_forall₂_alike halike hquiet
  exact ⟨stored', hwritten, hloaded.symm⟩

theorem EncryptionTurn.alike {topic : String} {answer : Except KeyError (Option KeyVersion)}
    {t : Place ι} (h : EncryptionTurn options i topic text history answer t)
    (hsaid : t.2 = history ++ ⟨.readText, failure⟩ :: rest)
    (hloaded : loaded text' failure' = loaded text failure)
    (halike : List.Forall₂ Alike rest rest') :
    ∃ new, EncryptionTurn options i topic text' history' answer
      (new, history' ++ ⟨.readText, failure'⟩ :: rest') := by
  cases h with
  | served hfind =>
    obtain ⟨rfl, hsame⟩ := alike_unwritten hsaid hloaded halike (by simp [Question.isWrite])
    exact ⟨text', .served (hsame ▸ hfind)⟩
  | ambiguous hfind =>
    obtain ⟨rfl, hsame⟩ := alike_unwritten hsaid hloaded halike (by simp [Question.isWrite])
    exact ⟨text', .ambiguous (hsame ▸ hfind)⟩
  | unkeyed hfind =>
    obtain ⟨rfl, hsame⟩ := alike_unwritten hsaid hloaded halike (by simp [Question.isWrite])
    exact ⟨text', .unkeyed (hsame ▸ hfind)⟩
  | failed hfind hlost =>
    obtain ⟨rfl, hsame⟩ := alike_unwritten hsaid hloaded halike (by simp [Question.isWrite])
    exact ⟨text', .failed (hsame ▸ hfind) (hsame ▸ hlost)⟩
  | fetched hfind hnew =>
    obtain ⟨stored', rfl, hsame⟩ :=
      alike_written hsaid hloaded halike rfl (by simp [Question.isWrite])
    exact ⟨_, .fetched (hsame ▸ hfind) (hsame ▸ hnew)⟩
  | bridged hfind houtage hstale hnew =>
    obtain ⟨stored', rfl, hsame⟩ :=
      alike_written hsaid hloaded halike rfl (by simp [Question.isWrite])
    exact ⟨_, .bridged (hsame ▸ hfind) houtage (hsame ▸ hstale) (hsame ▸ hnew)⟩

theorem DecryptionTurn.alike {topic : String} {version : Version} {keyName : Option String}
    {found : Except KeyError String} {t : Place ι}
    (h : DecryptionTurn options i topic version keyName text history found t)
    (hsaid : t.2 = history ++ ⟨.readText, failure⟩ :: rest)
    (hloaded : loaded text' failure' = loaded text failure)
    (halike : List.Forall₂ Alike rest rest') :
    ∃ new, DecryptionTurn options i topic version keyName text' history' found
      (new, history' ++ ⟨.readText, failure'⟩ :: rest') := by
  cases h with
  | served hfind =>
    obtain ⟨rfl, hsame⟩ := alike_unwritten hsaid hloaded halike (by simp)
    exact ⟨text', .served (hsame ▸ hfind)⟩
  | ambiguous hfind =>
    obtain ⟨rfl, hsame⟩ := alike_unwritten hsaid hloaded halike (by simp)
    exact ⟨text', .ambiguous (hsame ▸ hfind)⟩
  | failed hfind =>
    obtain ⟨rfl, hsame⟩ := alike_unwritten hsaid hloaded halike (by simp [Question.isWrite])
    exact ⟨text', .failed (hsame ▸ hfind)⟩
  | fetched hfind hnew =>
    obtain ⟨stored', rfl, hsame⟩ :=
      alike_written hsaid hloaded halike rfl (by simp [Question.isWrite])
    exact ⟨_, .fetched (hsame ▸ hfind) (hsame ▸ hnew)⟩

/-- **What the storage said has no influence on the answer.**  A conversation in which another text
was loaded to the same entries, or in which writing went another way, ends with the same answer. -/
theorem exists_gives_of_alike {lookup : Lookup} {answer : Except KeyError (Option KeyVersion)}
    {t : Place ι} (h : Gives (lookUp options i lookup) (text, history) answer t)
    (hsaid : t.2 = history ++ ⟨.readText, failure⟩ :: rest)
    (hloaded : loaded text' failure' = loaded text failure)
    (halike : List.Forall₂ Alike rest rest') :
    ∃ new, Gives (lookUp options i lookup) (text', history') answer
      (new, history' ++ ⟨.readText, failure'⟩ :: rest') := by
  cases lookup with
  | encryption topic =>
    obtain ⟨new, hturn⟩ := (encryptionTurn_of_gives h).alike hsaid hloaded halike
    exact ⟨new, hturn.gives⟩
  | decryption topic version keyName =>
    obtain ⟨found, rfl, hlookup⟩ := gives_lookUp_decryption.mp h
    obtain ⟨new, hturn⟩ := (decryptionTurn_of_gives hlookup).alike hsaid hloaded halike
    exact ⟨new, gives_lookUp_decryption.mpr ⟨found, rfl, hturn.gives⟩⟩

/-! ## Containment -/

/-- The questions that go to a source behind a cache. -/
def sourceQuestions (said : History ι) : List (Question ι) :=
  (said.map (·.question)).filter (·.isForSource)

/-- What it means for a lookup that failures are contained.  The lookup loaded the entries, of which
it found some at the reading of the clock.  It began with the first text and ended with the last
one, and after it had read the text this was said. -/
structure Contained (options : CachingOptions) (i : ι) (lookup : Lookup) (entries : List CacheEntry)
    (now : Instant) (text : Option String) (said : History ι)
    (answer : Except KeyError (Option KeyVersion)) (new : Option String) : Prop where
  /-- Any other text that is loaded to the same entries, and any other success of writing, leaves
  the answer as it is.  A text that cannot be read is loaded to what nothing is loaded to. -/
  decided (text' : Option String) (failure' : Option StorageError) (history' said' : History ι)
    (answer' : Except KeyError (Option KeyVersion)) : loaded text' failure' = entries →
      List.Forall₂ Alike said said' →
      ((∃ new', Gives (lookUp options i lookup) (text', history') answer'
        (new', history' ++ ⟨.readText, failure'⟩ :: said')) ↔ answer' = answer)
  /-- The source behind is asked just this, and once, if no entry is found, and else not at all. -/
  asked : sourceQuestions said =
    if entries.filter (lookup.finds now) = [] then [lookup.question i] else []
  /-- What is found is served, unless it contradicts itself. -/
  served : entries.filter (lookup.finds now) ≠ [] →
    ¬ lookup.Contradicts (entries.filter (lookup.finds now)) →
      ∃ e ∈ entries.filter (lookup.finds now), answer = .ok (some e.key)
  /-- A contradiction is reported. -/
  ambiguous : lookup.Contradicts (entries.filter (lookup.finds now)) →
    answer = .error (.ambiguity lookup.topic (entries.filter (lookup.finds now)).length)
  /-- There is no other failure than a contradiction and that of the source behind. -/
  failed (err : KeyError) : answer = .error err →
    lookup.refusal i err ∈ said ∨ lookup.Contradicts (entries.filter (lookup.finds now)) ∧
      err = .ambiguity lookup.topic (entries.filter (lookup.finds now)).length
  /-- A failure of the source behind is passed on, unless it is an outage that concerns a key to
  encrypt under. -/
  refused (err : KeyError) : lookup.refusal i err ∈ said →
    (lookup.isEncryption = true → ∀ reason, err ≠ .store reason) → answer = .error err
  /-- Nothing is written without a key that the source behind was asked for. -/
  untouched : (∀ key, answer ≠ .ok (some key)) ∨ sourceQuestions said = [] →
    new = text ∧ ∀ exchange ∈ said, exchange.question.isWrite = false

theorem question_of_mem_clock {lookup : Lookup} {now : Instant}
    {exchange : Exchange (Question ι) Answer} (h : exchange ∈ lookup.clock i now) :
    exchange.question = .time i := by
  cases lookup with
  | encryption _ =>
    obtain rfl := List.mem_singleton.mp h
    rfl
  | decryption _ _ _ => exact absurd h List.not_mem_nil

theorem isForSource_question (i : ι) (lookup : Lookup) :
    (lookup.question i).isForSource = true := by
  cases lookup <;> rfl

theorem question_refusal (i : ι) (err : KeyError) (lookup : Lookup) :
    (lookup.refusal i err).question = lookup.question i := by
  cases lookup <;> rfl

theorem sourceQuestions_eq_nil {said : History ι}
    (h : ∀ exchange ∈ said, exchange.question.isForSource = false) : sourceQuestions said = [] := by
  refine List.filter_eq_nil_iff.mpr fun q hq => ?_
  obtain ⟨exchange, hexchange, rfl⟩ := List.mem_map.mp hq
  rw [h exchange hexchange]
  exact Bool.false_ne_true

section

variable {lookup : Lookup} {found : List CacheEntry} {new : Option String}
  {answer : Except KeyError (Option KeyVersion)}

/-- Reading the clock asks no source. -/
theorem sourceQuestions_clock_append (i : ι) (lookup : Lookup) (now : Instant) (said : History ι) :
    sourceQuestions (lookup.clock i now ++ said) = sourceQuestions said := by
  cases lookup <;> rfl

theorem Course.sourceQuestions (h : Course i lookup found text answer new rest) :
    sourceQuestions rest = if found = [] then [lookup.question i] else [] := by
  cases h with
  | served hmem _ => rw [if_neg (List.ne_nil_of_mem hmem), Shared.sourceQuestions]; rfl
  | ambiguous hcontra =>
    have hne : found ≠ [] := fun hnil => lookup.not_contradicts_nil (hnil ▸ hcontra)
    rw [if_neg hne]
    rfl
  | passed hnone hasked _ _ =>
    rw [if_pos hnone, Shared.sourceQuestions, List.map_singleton, hasked,
      List.filter_cons_of_pos (isForSource_question i lookup), List.filter_nil]
  | stored hnone hasked _ hrest =>
    rw [if_pos hnone, Shared.sourceQuestions, List.map_cons, hasked,
      List.filter_cons_of_pos (isForSource_question i lookup)]
    exact congrArg _ (sourceQuestions_eq_nil hrest)

theorem Course.exists_served (h : Course i lookup found text answer new rest) (hfound : found ≠ [])
    (hagree : ¬ lookup.Contradicts found) : ∃ e ∈ found, answer = .ok (some e.key) := by
  cases h with
  | served hmem _ => exact ⟨_, hmem, rfl⟩
  | ambiguous hcontra => exact absurd hcontra hagree
  | passed hnone _ _ _ => exact absurd hnone hfound
  | stored hnone _ _ _ => exact absurd hnone hfound

theorem Course.eq_ambiguity (h : Course i lookup found text answer new rest)
    (hcontra : lookup.Contradicts found) :
    answer = .error (.ambiguity lookup.topic found.length) := by
  cases h with
  | served _ hagree => exact absurd hcontra hagree
  | ambiguous _ => rfl
  | passed hnone _ _ _ => exact absurd (hnone ▸ hcontra) lookup.not_contradicts_nil
  | stored hnone _ _ _ => exact absurd (hnone ▸ hcontra) lookup.not_contradicts_nil

theorem Course.failed (h : Course i lookup found text answer new rest) {err : KeyError}
    (herr : answer = .error err) :
    lookup.refusal i err ∈ rest ∨
      lookup.Contradicts found ∧ err = .ambiguity lookup.topic found.length := by
  cases h with
  | served _ _ => exact absurd herr (by simp)
  | ambiguous hcontra => exact .inr ⟨hcontra, (Except.error.inj herr).symm⟩
  | passed _ _ _ hfails => exact .inl (List.mem_singleton.mpr ((hfails err).mpr herr).symm)
  | stored _ _ _ _ => exact absurd herr (by simp)

theorem Course.refused (h : Course i lookup found text answer new rest) {err : KeyError}
    (hrefused : lookup.refusal i err ∈ rest)
    (hkind : lookup.isEncryption = true → ∀ reason, err ≠ .store reason) :
    answer = .error err := by
  cases h with
  | served _ _ => exact absurd hrefused List.not_mem_nil
  | ambiguous _ => exact absurd hrefused List.not_mem_nil
  | passed _ _ _ hfails => exact (hfails err).mp (List.mem_singleton.mp hrefused).symm
  | stored _ _ houtage hrest =>
    rcases List.mem_cons.mp hrefused with hasked | hmem
    · obtain ⟨henc, reason, hreason⟩ := houtage err hasked.symm
      exact absurd hreason (hkind henc reason)
    · have hsource := hrest _ hmem
      rw [question_refusal, isForSource_question] at hsource
      exact absurd hsource.symm Bool.false_ne_true

theorem Course.untouched (h : Course i lookup found text answer new rest)
    (hkeyless : (∀ key, answer ≠ .ok (some key)) ∨ Shared.sourceQuestions rest = []) :
    new = text ∧ ∀ exchange ∈ rest, exchange.question.isWrite = false := by
  cases h with
  | served _ _ => exact ⟨rfl, fun _ hmem => absurd hmem List.not_mem_nil⟩
  | ambiguous _ => exact ⟨rfl, fun _ hmem => absurd hmem List.not_mem_nil⟩
  | passed _ hasked _ _ =>
    refine ⟨rfl, List.forall_mem_singleton.mpr ?_⟩
    rw [hasked]
    cases lookup <;> rfl
  | stored hnone hasked _ hrest =>
    rcases hkeyless with hkeyless | hunasked
    · exact absurd rfl (hkeyless _)
    · rw [Shared.sourceQuestions, List.map_cons, hasked,
        List.filter_cons_of_pos (isForSource_question i lookup)] at hunasked
      exact absurd hunasked (List.cons_ne_nil _ _)

end

/-- **Failures are contained.**  Whatever is stored, whether it can be read or written, whatever the
clock and the source behind say, and whichever key is looked up: the storage has no influence on the
answer but through the entries that are loaded; the source behind is asked at most once, and not if
an entry is found; a failure is either its own or a contradiction between the entries; and a lookup
that fails, that finds the topic not to be encrypted, or that is served from the entries, writes
nothing. -/
theorem contained_of_gives {lookup : Lookup} {s t : Place ι}
    {answer : Except KeyError (Option KeyVersion)}
    (h : Gives (lookUp options i lookup) s answer t) :
    ∃ failure now said, t.2 = s.2 ++ ⟨.readText, failure⟩ :: said ∧
      (lookup.isEncryption = true → ⟨.time i, now⟩ ∈ said) ∧
      Contained options i lookup (loaded s.1 failure) now s.1 said answer t.1 := by
  obtain ⟨failure, now, rest, hsaid, hcourse⟩ := course_of_gives h
  have hclock : ∀ exchange ∈ lookup.clock i now,
      exchange.question.isForSource = false ∧ exchange.question.isWrite = false := by
    intro exchange hexchange
    rw [question_of_mem_clock hexchange]
    exact ⟨rfl, rfl⟩
  refine ⟨failure, now, lookup.clock i now ++ rest, hsaid, fun henc => ?_, ?_⟩
  · cases lookup with
    | encryption _ => exact List.mem_cons_self
    | decryption _ _ _ => exact absurd henc Bool.false_ne_true
  exact
    { decided := by
        intro text' failure' history' said' answer' hloaded halike
        constructor
        · rintro ⟨new', hgives⟩
          obtain ⟨new, hother⟩ := exists_gives_of_alike h hsaid hloaded halike
          exact (determined hgives hother (List.prefix_refl _) (List.prefix_refl _)).1
        · rintro rfl
          exact exists_gives_of_alike h hsaid hloaded halike
      asked := by
        rw [sourceQuestions_clock_append]
        exact hcourse.sourceQuestions
      served := hcourse.exists_served
      ambiguous := hcourse.eq_ambiguity
      failed := fun err herr =>
        (hcourse.failed herr).imp_left fun hmem => List.mem_append_right _ hmem
      refused := by
        intro err hrefused hkind
        refine hcourse.refused ((List.mem_append.mp hrefused).resolve_left fun hmem => ?_) hkind
        have hsource := (hclock _ hmem).1
        rw [question_refusal, isForSource_question] at hsource
        exact absurd hsource.symm Bool.false_ne_true
      untouched := by
        rw [sourceQuestions_clock_append]
        intro hkeyless
        obtain ⟨hnew, hrest⟩ := hcourse.untouched hkeyless
        exact ⟨hnew, List.forall_mem_append.mpr ⟨fun exchange hmem => (hclock _ hmem).2, hrest⟩⟩ }

/-- A text with one key of a topic. -/
def staleText : String := "topicseal-key-cache v1\ntopic\tt\n1\t1970-01-01T00:00:10Z\t\told\n"

/-- The key of a topic has expired, and the source behind fails in a way that is no outage.  Its
failure is the answer, although there is an entry that would bridge an outage. -/
theorem contained_at_stale_entry :
    ∃ answer t, Gives (lookUp .standard () (.encryption "t")) (some staleText, []) answer t ∧
      answer = .error (.format .readBody) ∧
      (encryptionEntries (entriesOf (some staleText)) "t").map (·.key.material) = ["old"] ∧
      ∃ failure now said, t.2 = ⟨.readText, failure⟩ :: said ∧
        (Lookup.isEncryption (.encryption "t") = true → ⟨.time (), now⟩ ∈ said) ∧
        Contained .standard () (.encryption "t") (loaded (some staleText) failure) now
          (some staleText) said answer t.1 := by
  let outcome := (withOracle (outsideAt (.ofSecond 100) (.error (.format .readBody)))).run
    (lookUp .standard () (.encryption "t")) (some staleText, [])
  have hgives : Gives (lookUp .standard () (.encryption "t")) (some staleText, [])
      outcome.1 outcome.2 :=
    Execution.gives_run _ _ _
  have hanswer : outcome.1 = .error (.format .readBody) ∧
      (encryptionEntries (entriesOf (some staleText)) "t").map (·.key.material) = ["old"] := by cbv
  exact ⟨outcome.1, outcome.2, hgives, hanswer.1, hanswer.2, contained_of_gives hgives⟩

end Shared

end TopicCipher
