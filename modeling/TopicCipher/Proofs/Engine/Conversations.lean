import TopicCipher.Proofs.Dialogue
import TopicCipher.Proofs.Engine.Provenance
import TopicCipher.Proofs.Time.Instant

/-!
# An engine on its own

An engine does not know what is behind its source of keys.  So here keys, clocks and randomness are
questions to the outside, and a statement about all histories is a statement about all sources of
keys and all clocks, also such that go back.  Two things are known of the answers: clocks tell
instants of the calendar, and a random extra time keeps within its bound.

The two lookups go the same way.  The clock is read, and what is live then is taken from memory.
Else one question is asked, and if the answer makes a key, the key is kept; if not, the memory stays
as it was.

* `turn_of_gives`: what is said in a lookup, word for word.
* `served_of_gives`: which lookup an operation makes.
* `act_of_served`: what an operation says about keys, and what it does to the memory.
-/

namespace TopicCipher

/-- The longest time for which an engine keeps a key. -/
def EngineOptions.longestLife (o : EngineOptions) : Span := o.ttl.add o.maxJitter

namespace Engine

/-! ## The outside -/

/-- What an engine asks the outside. -/
inductive Question where
  | time
  | jitter (bound : Span)
  | encryptionKey (topic : String)
  | decryptionKey (topic : String) (version : Version) (keyName : Option String)
  | vector

/-- Holds of the questions that go to the source of keys. -/
@[simp] def Question.isForKey : Question → Bool
  | .encryptionKey _ => true
  | .decryptionKey _ _ _ => true
  | _ => false

/-- How the outside may answer. -/
abbrev Answer : Question → Type
  | .time => { now : Instant // now.IsTold }
  | .jitter bound => { extra : Span // extra.nanos ≤ bound.nanos }
  | .encryptionKey _ => Except KeyError (Option KeyVersion)
  | .decryptionKey _ _ _ => Except KeyError String
  | .vector => Except String Bytes

/-- All that was asked so far, with the answers. -/
abbrev History := List (Exchange Question Answer)

/-- Computations that ask the outside. -/
abbrev Outside := Dialogue Question Answer

/-- The keys that are kept, and the history. -/
abbrev Place := Memory × History

/-- Nothing is kept, and nothing was said. -/
def fresh : Place := (.empty, [])

/-- An engine that leaves everything else to the outside. -/
def standalone (options : EngineOptions) : Engine Outside where
  keys :=
    { encryptionKey := fun topic => .question (Question.encryptionKey topic)
      decryptionKey := fun topic version keyName =>
        .question (Question.decryptionKey topic version keyName) }
  timing :=
    { now := do return (← Dialogue.question Question.time).1
      jitter := fun bound => do return (← Dialogue.question (Question.jitter bound)).1 }
  freshIv := .question Question.vector
  options := options

/-- What users of an engine may do. -/
inductive Call where
  | encrypt (topic : String) (plaintext : Bytes)
  | decrypt (topic : String) (envelope : Envelope)
  | encodeField (topic : String) (value : Option String)
  | decodeField (topic : String) (value : Option String)
  /-- Forgets the keys that are kept. -/
  | invalidate

/-- The key that is needed to decrypt an envelope. -/
def decryptionQuestion? (topic : String) (envelope : Envelope) : Option Question :=
  envelope.cipherIv?.map fun _ => .decryptionKey topic envelope.version envelope.keyName

/-- The key that a call needs. -/
def Call.key? : Call → Option Question
  | .encrypt topic _ => some (.encryptionKey topic)
  | .decrypt topic envelope => decryptionQuestion? topic envelope
  | .encodeField topic value => value.map fun _ => .encryptionKey topic
  | .decodeField topic value => do
    let value ← value.filter Field.isMarked
    decryptionQuestion? topic (← (Field.decode value).toOption)
  | .invalidate => none

/-- Makes a call and leaves its answer alone. -/
def perform (options : EngineOptions) : Call → StateT Memory Outside Unit
  | .encrypt topic plaintext => do let _ ← (standalone options).encrypt topic plaintext
  | .decrypt topic envelope => do let _ ← (standalone options).decrypt topic envelope
  | .encodeField topic value => do let _ ← (standalone options).encodeField topic value
  | .decodeField topic value => do let _ ← (standalone options).decodeField topic value
  | .invalidate => Engine.invalidate

variable {options : EngineOptions}

theorem gives_now {history later : History} {now : Instant} :
    Gives (standalone options).timing.now history now later ↔
      ∃ reading : { now : Instant // now.IsTold },
        now = reading.1 ∧ later = history ++ [⟨.time, reading⟩] :=
  gives_bind_pure.trans (exists_congr fun _ => and_congr_right fun _ => Dialogue.gives_question)

theorem gives_jitter {history later : History} {bound extra : Span} :
    Gives ((standalone options).timing.jitter bound) history extra later ↔
      ∃ drawn : { extra : Span // extra.nanos ≤ bound.nanos },
        extra = drawn.1 ∧ later = history ++ [⟨.jitter bound, drawn⟩] :=
  gives_bind_pure.trans (exists_congr fun _ => and_congr_right fun _ => Dialogue.gives_question)

theorem gives_expiry {history later : History} {now expiresAt : Instant} :
    Gives ((standalone options).expiry now) history expiresAt later ↔
      ∃ extra : { extra : Span // extra.nanos ≤ options.maxJitter.nanos },
        expiresAt = expiryAfter now options.ttl extra.1 ∧
          later = history ++ [⟨.jitter options.maxJitter, extra⟩] := by
  rw [expiry, Timing.gives_expiry]
  constructor
  · rintro ⟨_, rfl, hjitter⟩
    obtain ⟨drawn, rfl, rfl⟩ := gives_jitter.mp hjitter
    exact ⟨drawn, rfl, rfl⟩
  · rintro ⟨extra, rfl, rfl⟩
    exact ⟨extra.1, rfl, gives_jitter.mpr ⟨extra, rfl, rfl⟩⟩

/-! ## Lookups -/

variable {α κ : Type}

/-- The exchange is about a key, and there is none: the source of keys failed, or what it answered
does not make a key. -/
def NoKey : Exchange Question Answer → Prop
  | ⟨.encryptionKey _, answer⟩ =>
    ∀ found key, answer = .ok found → ActiveKey.ofAnswer found ≠ .ok key
  | ⟨.decryptionKey _ _ _, answer⟩ => ∀ material key, answer = .ok material →
      TopicKey.ofText material ≠ .ok key
  | _ => False

theorem not_noKey_of_vector {exchange : Exchange Question Answer}
    (h : exchange.question = .vector) : ¬ NoKey exchange := by
  obtain ⟨q, answer⟩ := exchange
  obtain rfl : q = .vector := h
  exact id

/-- The slot for the answer to a question holds nothing that is live. -/
def Memory.Lacks (memory : Memory) (now : Instant) : Question → Prop
  | .encryptionKey topic => (memory.encryption.get? topic).bind (·.live? now) = none
  | .decryptionKey topic version keyName =>
    (memory.decryption.get? (topic, version, keyName)).bind (·.live? now) = none
  | _ => False

/-- The lookup asks one question, which is about the key of its slot, and the outside answers what
the lookup is answered. -/
structure Lookup.Asks (l : Lookup Outside α κ) (q : Question)
    (answer : Except KeyError α → Answer q) : Prop where
  gives {history later : History} {r : Except KeyError α} :
    Gives l.ask history r later ↔ later = history ++ [⟨q, answer r⟩]
  lacks {memory : Memory} {now : Instant} :
    memory.Lacks now q ↔ (l.slot memory).bind (·.live? now) = none
  makes {a : α} {key : κ} : l.make a = .ok key → ¬ NoKey ⟨q, answer (.ok a)⟩

theorem asks_encryptionLookup (options : EngineOptions) (topic : String) :
    ((standalone options).encryptionLookup topic).Asks (.encryptionKey topic) id where
  gives := Dialogue.gives_question
  lacks := Iff.rfl
  makes hmade h := h _ _ rfl hmade

theorem asks_decryptionLookup (options : EngineOptions) (topic : String) (version : Version)
    (keyName : Option String) : ((standalone options).decryptionLookup topic version keyName).Asks
      (.decryptionKey topic version keyName) id where
  gives := Dialogue.gives_question
  lacks := Iff.rfl
  makes hmade h := h _ _ rfl hmade

/-- What can be said in a lookup, begun with the given memory and history. -/
inductive Turn (options : EngineOptions) (l : Lookup Outside α κ) (q : Question)
    (answer : Except KeyError α → Answer q) (memory : Memory) (history : History) :
    Except EngineError κ → Place → Prop where
  | kept {now : { now : Instant // now.IsTold }} {key : κ}
      (hkept : (l.slot memory).bind (·.live? now.1) = some key) :
      Turn options l q answer memory history (.ok key) (memory, history ++ [⟨.time, now⟩])
  | refused {now : { now : Instant // now.IsTold }} {err : KeyError}
      (hkept : (l.slot memory).bind (·.live? now.1) = none) :
      Turn options l q answer memory history (.error (.key err))
        (memory, history ++ [⟨.time, now⟩, ⟨q, answer (.error err)⟩])
  | unusable {now : { now : Instant // now.IsTold }} {a : α} {err : CryptoError}
      (hkept : (l.slot memory).bind (·.live? now.1) = none) (hmade : l.make a = .error err) :
      Turn options l q answer memory history (.error (.crypto err))
        (memory, history ++ [⟨.time, now⟩, ⟨q, answer (.ok a)⟩])
  | fetched {now : { now : Instant // now.IsTold }} {a : α} {key : κ}
      {extra : { extra : Span // extra.nanos ≤ options.maxJitter.nanos }}
      (hkept : (l.slot memory).bind (·.live? now.1) = none) (hmade : l.make a = .ok key) :
      Turn options l q answer memory history (.ok key)
        (l.fill memory ⟨key, expiryAfter now.1 options.ttl extra.1⟩,
          history ++ [⟨.time, now⟩, ⟨q, answer (.ok a)⟩, ⟨.jitter options.maxJitter, extra⟩])

variable {l : Lookup Outside α κ} {q : Question} {answer : Except KeyError α → Answer q}

/-- **Every lookup is one of the four conversations.** -/
theorem turn_of_gives (hasks : l.Asks q answer) {s t : Place} {r : Except EngineError κ}
    (h : Gives ((standalone options).lookup l) s r t) : Turn options l q answer s.1 s.2 r t := by
  cases gives_lookup.mp h with
  | kept hnow hkept =>
    obtain ⟨now, rfl, rfl⟩ := gives_now.mp hnow
    exact .kept hkept
  | refused hnow hkept hasked =>
    obtain ⟨now, rfl, rfl⟩ := gives_now.mp hnow
    obtain rfl := hasks.gives.mp hasked
    rw [List.append_assoc]
    exact .refused hkept
  | unusable hnow hkept hasked hmade =>
    obtain ⟨now, rfl, rfl⟩ := gives_now.mp hnow
    obtain rfl := hasks.gives.mp hasked
    rw [List.append_assoc]
    exact .unusable hkept hmade
  | fetched hnow hkept hasked hmade hexpiry =>
    obtain ⟨now, rfl, rfl⟩ := gives_now.mp hnow
    obtain rfl := hasks.gives.mp hasked
    obtain ⟨extra, rfl, rfl⟩ := gives_expiry.mp hexpiry
    simp only [List.append_assoc]
    exact .fetched hkept hmade

theorem turn_of_encryptionKey {topic : String} {s t : Place}
    {r : Except EngineError (Option ActiveKey)}
    (h : Gives ((standalone options).encryptionKey topic) s r t) :
    Turn options ((standalone options).encryptionLookup topic)
      (.encryptionKey topic) id s.1 s.2 r t := by
  rw [encryptionKey_eq_lookup] at h
  exact turn_of_gives (asks_encryptionLookup options topic) h

theorem turn_of_decryptionKey {topic : String} {version : Version} {keyName : Option String}
    {s t : Place} {r : Except EngineError TopicKey}
    (h : Gives ((standalone options).decryptionKey topic version keyName) s r t) :
    Turn options ((standalone options).decryptionLookup topic version keyName)
      (.decryptionKey topic version keyName) id s.1 s.2 r t := by
  rw [decryptionKey_eq_lookup] at h
  exact turn_of_gives (asks_decryptionLookup options topic version keyName) h

variable {memory : Memory} {history : History} {r : Except EngineError κ} {t : Place}

/-- **A lookup that finds no key keeps nothing**, and nothing live was in its slot. -/
theorem Turn.of_noKey (h : Turn options l q answer memory history r t) (hasks : l.Asks q answer)
    {exchange : Exchange Question Answer} (hsaid : Dialogue.Said history t.2 exchange)
    (hno : NoKey exchange) :
    t.1 = memory ∧ ∃ now, Dialogue.Said history t.2 ⟨.time, now⟩ ∧
      memory.Lacks now.1 exchange.question := by
  cases h with
  | kept _ =>
    obtain rfl := List.mem_singleton.mp (Dialogue.said_append_iff.mp hsaid)
    exact absurd hno id
  | @refused now _ hkept =>
    have hmem := Dialogue.said_append_iff.mp hsaid
    simp only [List.mem_cons, List.not_mem_nil, or_false] at hmem
    rcases hmem with rfl | rfl
    · exact absurd hno id
    · exact ⟨rfl, now, Dialogue.said_append_iff.mpr (.head _), hasks.lacks.mpr hkept⟩
  | @unusable now _ _ hkept _ =>
    have hmem := Dialogue.said_append_iff.mp hsaid
    simp only [List.mem_cons, List.not_mem_nil, or_false] at hmem
    rcases hmem with rfl | rfl
    · exact absurd hno id
    · exact ⟨rfl, now, Dialogue.said_append_iff.mpr (.head _), hasks.lacks.mpr hkept⟩
  | fetched _ hmade =>
    have hmem := Dialogue.said_append_iff.mp hsaid
    simp only [List.mem_cons, List.not_mem_nil, or_false] at hmem
    rcases hmem with rfl | rfl | rfl
    · exact absurd hno id
    · exact absurd hno (hasks.makes hmade)
    · exact absurd hno id

/-- A lookup asks if nothing in its slot is live at its reading of the clock. -/
theorem Turn.asks (h : Turn options l q answer memory history r t) (hasks : l.Asks q answer)
    (hlacks : ∀ now, Dialogue.Said history t.2 ⟨.time, now⟩ → memory.Lacks now.1 q) :
    ∃ answered, Dialogue.Said history t.2 ⟨q, answered⟩ := by
  cases h with
  | @kept now key hlive =>
    have hnone := hasks.lacks.mp (hlacks now (Dialogue.said_append_iff.mpr (.head _)))
    exact absurd (hnone.symm.trans hlive) (Option.some_ne_none key).symm
  | refused _ => exact ⟨_, Dialogue.said_append_iff.mpr (.tail _ (.head _))⟩
  | unusable _ _ => exact ⟨_, Dialogue.said_append_iff.mpr (.tail _ (.head _))⟩
  | fetched _ _ => exact ⟨_, Dialogue.said_append_iff.mpr (.tail _ (.head _))⟩

/-! ## Operations -/

/-- What a call does: nothing at all, or one lookup, after which at most a vector is drawn. -/
inductive Served (options : EngineOptions) (call : Call) (s : Place) : Place → Prop where
  | idle (hkey : call.key? = none) : Served options call s s
  | encryption {topic : String} {found : Except EngineError (Option ActiveKey)} {t : Place}
      {rest : History} (hkey : call.key? = some (.encryptionKey topic))
      (hlookup : Gives ((standalone options).encryptionKey topic) s found t)
      (hrest : ∀ exchange ∈ rest, exchange.question = .vector) :
      Served options call s (t.1, t.2 ++ rest)
  | decryption {topic : String} {version : Version} {keyName : Option String}
      {found : Except EngineError TopicKey} {t : Place}
      (hkey : call.key? = some (.decryptionKey topic version keyName))
      (hlookup : Gives ((standalone options).decryptionKey topic version keyName) s found t) :
      Served options call s t

variable {call : Call} {s : Place}

theorem served_of_encrypt {topic : String} {plaintext : Bytes} {r : Except EngineError Envelope}
    (h : Gives ((standalone options).encrypt topic plaintext) s r t)
    (hkey : call.key? = some (.encryptionKey topic)) : Served options call s t := by
  cases gives_encrypt.mp h with
  | failed hlookup =>
    have hserved := Served.encryption hkey hlookup (List.forall_mem_nil _)
    rwa [List.append_nil] at hserved
  | passed hlookup =>
    have hserved := Served.encryption hkey hlookup (List.forall_mem_nil _)
    rwa [List.append_nil] at hserved
  | sealed hlookup hdrawn =>
    obtain rfl := Dialogue.gives_question.mp hdrawn
    exact .encryption hkey hlookup (List.forall_mem_singleton.mpr rfl)

theorem served_of_decrypt {topic : String} {envelope : Envelope} {r : Except EngineError Bytes}
    (h : Gives ((standalone options).decrypt topic envelope) s r t)
    (hkey : call.key? = decryptionQuestion? topic envelope) : Served options call s t := by
  cases gives_decrypt.mp h with
  | passed hiv =>
    refine .idle ?_
    rw [hkey, decryptionQuestion?, hiv, Option.map_none]
  | failed hiv hlookup =>
    refine .decryption ?_ hlookup
    rw [hkey, decryptionQuestion?, hiv, Option.map_some]
  | opened hiv hlookup =>
    refine .decryption ?_ hlookup
    rw [hkey, decryptionQuestion?, hiv, Option.map_some]

/-- **Which lookup a call makes**, unless it forgets everything. -/
theorem served_of_gives (hcall : call ≠ .invalidate)
    (h : Gives (perform options call) s () t) : Served options call s t := by
  cases call with
  | encrypt topic plaintext =>
    obtain ⟨_, _, hgives, hdone⟩ := gives_bind.mp h
    obtain ⟨-, rfl⟩ := gives_pure.mp hdone
    exact served_of_encrypt hgives rfl
  | decrypt topic envelope =>
    obtain ⟨_, _, hgives, hdone⟩ := gives_bind.mp h
    obtain ⟨-, rfl⟩ := gives_pure.mp hdone
    exact served_of_decrypt hgives rfl
  | encodeField topic value =>
    obtain ⟨_, _, hgives, hdone⟩ := gives_bind.mp h
    obtain ⟨-, rfl⟩ := gives_pure.mp hdone
    rcases value with _ | value
    · obtain ⟨-, rfl⟩ := gives_pure.mp hgives
      exact .idle rfl
    · obtain ⟨_, hsealed, -⟩ := gives_encodeField.mp hgives
      exact served_of_encrypt hsealed rfl
  | decodeField topic value =>
    obtain ⟨_, _, hgives, hdone⟩ := gives_bind.mp h
    obtain ⟨-, rfl⟩ := gives_pure.mp hdone
    rcases value with _ | value
    · obtain ⟨-, rfl⟩ := gives_pure.mp hgives
      exact .idle rfl
    · rcases hmarked : Field.isMarked value
      · obtain ⟨-, rfl⟩ := (gives_decodeField_of_not_isMarked hmarked).mp hgives
        refine .idle ?_
        simp [Call.key?, Option.filter, hmarked]
      · rcases (gives_decodeField_of_isMarked hmarked).mp hgives with
          ⟨_, hread, -, rfl⟩ | ⟨_, _, hread, hopened, -⟩
        · refine .idle ?_
          simp [Call.key?, Option.filter, hmarked, hread, Except.toOption]
        · refine served_of_decrypt hopened ?_
          simp [Call.key?, Option.filter, hmarked, hread, Except.toOption]
  | invalidate => exact absurd rfl hcall

/-- Forgetting everything says nothing and empties the memory. -/
theorem gives_invalidate :
    Gives (perform options .invalidate) s () t ↔ t = (Memory.empty, s.2) := by
  show Gives (set Memory.empty : StateT Memory Outside PUnit) s () t ↔ _
  rw [gives_set]

/-! ## Keys and the memory -/

/-- The questions that go to the source of keys. -/
def keyQuestions (said : History) : List Question :=
  (said.map (·.question)).filter (·.isForKey)

/-- What an operation says, and what it does to the memory. -/
inductive Act (options : EngineOptions) (memory : Memory) : History → Memory → Prop where
  /-- Nothing is kept that was not kept before. -/
  | idle {said : History} (hasked : (keyQuestions said).length ≤ 1) : Act options memory said memory
  /-- The answer about a key to encrypt under is kept. -/
  | encryption {said : History} {now : { now : Instant // now.IsTold }} {topic : String}
      {answer : Option KeyVersion} {kept : Kept (Option ActiveKey)}
      (hasked : (keyQuestions said).length ≤ 1) (hnow : ⟨.time, now⟩ ∈ said)
      (hsaid : ⟨.encryptionKey topic, .ok answer⟩ ∈ said)
      (hmade : ActiveKey.ofAnswer answer = .ok kept.value)
      (hexpiry : kept.expiresAt ≤ now.1.add options.longestLife) :
      Act options memory said { memory with encryption := memory.encryption.put topic kept }
  /-- An old key is kept. -/
  | decryption {said : History} {now : { now : Instant // now.IsTold }} {topic : String}
      {version : Version} {keyName : Option String} {material : String} {kept : Kept TopicKey}
      (hasked : (keyQuestions said).length ≤ 1) (hnow : ⟨.time, now⟩ ∈ said)
      (hsaid : ⟨.decryptionKey topic version keyName, .ok material⟩ ∈ said)
      (hmade : TopicKey.ofText material = .ok kept.value)
      (hexpiry : kept.expiresAt ≤ now.1.add options.longestLife) :
      Act options memory said
        { memory with decryption := memory.decryption.put (topic, version, keyName) kept }

variable {memory' : Memory} {said : History}

theorem Act.length_keyQuestions_le (h : Act options memory said memory') :
    (keyQuestions said).length ≤ 1 := by
  cases h <;> assumption

/-- What is no question for a key may be said as well. -/
theorem Act.append (h : Act options memory said memory') {rest : History}
    (hrest : ∀ exchange ∈ rest, exchange.question = .vector) :
    Act options memory (said ++ rest) memory' := by
  have hnone : keyQuestions rest = [] := by
    refine List.filter_eq_nil_iff.mpr fun q hq => ?_
    obtain ⟨exchange, hexchange, rfl⟩ := List.mem_map.mp hq
    rw [hrest exchange hexchange]
    exact Bool.false_ne_true
  have hasked : keyQuestions (said ++ rest) = keyQuestions said := by
    rw [keyQuestions, List.map_append, List.filter_append, ← keyQuestions, ← keyQuestions, hnone,
      List.append_nil]
  cases h with
  | idle hone => exact .idle (hasked ▸ hone)
  | encryption hone hnow hsaid hmade hexpiry =>
    exact .encryption (hasked ▸ hone) (List.mem_append_left _ hnow) (List.mem_append_left _ hsaid)
      hmade hexpiry
  | decryption hone hnow hsaid hmade hexpiry =>
    exact .decryption (hasked ▸ hone) (List.mem_append_left _ hnow) (List.mem_append_left _ hsaid)
      hmade hexpiry

/-- A lookup asks for one key at most, and keeps what it was answered in its slot, or nothing. -/
theorem act_of_turn (h : Turn options l q answer memory history r t)
    (hfill : ∀ {said : History} {now : { now : Instant // now.IsTold }} {a : α} {kept : Kept κ},
      (keyQuestions said).length ≤ 1 → ⟨.time, now⟩ ∈ said → ⟨q, answer (.ok a)⟩ ∈ said →
      l.make a = .ok kept.value → kept.expiresAt ≤ now.1.add options.longestLife →
      Act options memory said (l.fill memory kept)) :
    ∃ said, t.2 = history ++ said ∧ Act options memory said t.1 := by
  have hone : ∀ exchange : Exchange Question Answer,
      (keyQuestions [exchange]).length ≤ 1 := fun exchange =>
    (List.length_filter_le _ _).trans (List.length_map _).le
  cases h with
  | kept _ => exact ⟨_, rfl, .idle (Nat.zero_le 1)⟩
  | refused _ => exact ⟨_, rfl, .idle (hone _)⟩
  | unusable _ _ => exact ⟨_, rfl, .idle (hone _)⟩
  | @fetched now a key extra _ hmade =>
    have hsaid : (keyQuestions [⟨.time, now⟩, ⟨q, answer (.ok a)⟩,
        ⟨.jitter options.maxJitter, extra⟩]).length ≤ 1 := by
      refine Nat.le_trans (Nat.le_of_eq ?_) (hone ⟨q, answer (.ok a)⟩)
      simp [keyQuestions, List.filter_cons]
    exact ⟨_, rfl, hfill hsaid (.head _) (.tail _ (.head _)) hmade
      (expiryAfter_le_add now.2 options.ttl extra.2)⟩

/-- **What a call says about keys, and what it does to the memory.** -/
theorem act_of_served (h : Served options call s t) :
    ∃ said, t.2 = s.2 ++ said ∧ Act options s.1 said t.1 := by
  cases h with
  | idle _ => exact ⟨[], (List.append_nil _).symm, .idle (Nat.zero_le 1)⟩
  | encryption _ hlookup hrest =>
    obtain ⟨said, hsaid, hact⟩ := act_of_turn (turn_of_encryptionKey hlookup) .encryption
    refine ⟨said ++ _, ?_, hact.append hrest⟩
    rw [hsaid, List.append_assoc]
  | decryption _ hlookup => exact act_of_turn (turn_of_decryptionKey hlookup) .decryption

end Engine

end TopicCipher
