import Mathlib.Data.List.DropRight
import TopicCipher.Proofs.Engine.Conversations

/-!
# What an engine keeps in memory

An engine keeps answers of its source of keys.  It should use no answer for another key than the one
that was asked for, none that is too old, and none from before it was told to forget.

So every slot of the memory is traced to the step of the run in which it was filled.  In that step
the clock was read, and the source gave the answer for just this slot.  The slot holds what the
answer makes, and its expiry is at most the longest lifetime after the reading.  No later step of
the run forgot everything, for then the slot would be gone.  That is the invariant
(`recalls_of_run`), and it does not depend on how the clock goes.

A lookup that fails keeps nothing.  So the next one asks again, if its clock has not gone back in
the meantime.  An expired slot is not removed, so when the clock goes back behind its expiry it is
live again.

* `recalls_of_run`: where the slots of the memory come from.
* `disciplined_of_run`: what that means for operations.
* `not_forall_asks_again`: a failed lookup after which the next one does not ask again.
-/

namespace TopicCipher.Engine

variable {options : EngineOptions} {steps : List (Step Call Place)} {s t u : Place}

/-- Holds of calls that forget everything. -/
def Call.isInvalidate : Call → Bool
  | .invalidate => true
  | _ => false

/-- The last steps of a run, since everything was forgotten. -/
def recent (steps : List (Step Call Place)) : List (Step Call Place) :=
  steps.rtakeWhile fun step => !step.call.isInvalidate

/-- The exchange took place in a recent step, and the instant is at most the longest lifetime after
the reading of the clock in that step. -/
def Recalled (options : EngineOptions) (steps : List (Step Call Place))
    (exchange : Exchange Question Answer) (limit : Instant) : Prop :=
  ∃ step ∈ recent steps, ∃ reading : { now : Instant // now.IsTold },
    Dialogue.Said step.before.2 step.after.2 ⟨.time, reading⟩ ∧
      Dialogue.Said step.before.2 step.after.2 exchange ∧
        limit ≤ reading.1.add options.longestLife

/-- Every slot holds what an answer made that was given for it in a recent step. -/
structure Memory.Recalls (memory : Memory) (options : EngineOptions)
    (steps : List (Step Call Place)) : Prop where
  encryption {topic : String} {kept : Kept (Option ActiveKey)} :
    memory.encryption.get? topic = some kept →
      ∃ answer, ActiveKey.ofAnswer answer = .ok kept.value ∧
        Recalled options steps ⟨.encryptionKey topic, .ok answer⟩ kept.expiresAt
  decryption {topic : String} {version : Version} {keyName : Option String}
    {kept : Kept TopicKey} :
    memory.decryption.get? (topic, version, keyName) = some kept →
      ∃ material, TopicKey.ofText material = .ok kept.value ∧
        Recalled options steps ⟨.decryptionKey topic version keyName, .ok material⟩ kept.expiresAt

theorem Memory.recalls_empty (options : EngineOptions) (steps : List (Step Call Place)) :
    Memory.empty.Recalls options steps where
  encryption h := absurd h (by simp [Memory.empty])
  decryption h := absurd h (by simp [Memory.empty])

/-! ## Steps -/

theorem recent_concat {step : Step Call Place} (h : step.call ≠ .invalidate) :
    recent (steps ++ [step]) = recent steps ++ [step] := by
  have hkept : (!step.call.isInvalidate) = true := by
    cases hcall : step.call with
    | invalidate => exact absurd hcall h
    | _ => rfl
  exact List.rtakeWhile_concat_pos
    (fun step : Step Call Place => !step.call.isInvalidate) steps step hkept

/-- What was recalled before another step is recalled after it, if the step does not forget
everything. -/
theorem Recalled.concat {exchange : Exchange Question Answer} {limit : Instant}
    (h : Recalled options steps exchange limit) {step : Step Call Place}
    (hcall : step.call ≠ .invalidate) : Recalled options (steps ++ [step]) exchange limit := by
  obtain ⟨earlier, hmem, hsaid⟩ := h
  refine ⟨earlier, ?_, hsaid⟩
  rw [recent_concat hcall]
  exact List.mem_append_left _ hmem

theorem Memory.Recalls.concat {memory : Memory} (h : memory.Recalls options steps)
    {step : Step Call Place} (hcall : step.call ≠ .invalidate) :
    memory.Recalls options (steps ++ [step]) where
  encryption hget := by
    obtain ⟨answer, hmade, hrecalled⟩ := h.encryption hget
    exact ⟨answer, hmade, hrecalled.concat hcall⟩
  decryption hget := by
    obtain ⟨material, hmade, hrecalled⟩ := h.decryption hget
    exact ⟨material, hmade, hrecalled.concat hcall⟩

/-- **A step that does not forget everything** keeps what it was answered, and nothing else. -/
theorem Memory.Recalls.step (h : s.1.Recalls options steps) {call : Call}
    (hcall : call ≠ .invalidate) (hgives : Gives (perform options call) s () t) :
    t.1.Recalls options (steps ++ [⟨call, s, t⟩]) := by
  obtain ⟨said, hsaid, hact⟩ := act_of_served (served_of_gives hcall hgives)
  have hbefore : s.1.Recalls options (steps ++ [⟨call, s, t⟩]) := h.concat hcall
  have hrecent : ⟨call, s, t⟩ ∈ recent (steps ++ [⟨call, s, t⟩]) := by
    rw [recent_concat hcall]
    exact List.mem_append_right _ (List.mem_singleton_self _)
  have hlater : ∀ exchange ∈ said, Dialogue.Said s.2 t.2 exchange :=
    fun exchange hmem => ⟨said, hsaid, hmem⟩
  generalize t.1 = memory at hact ⊢
  cases hact with
  | idle _ => exact hbefore
  | @encryption now topic answer kept _ hnow hanswer hmade hexpiry =>
    refine ⟨fun {other kept'} hget => ?_, fun hget => hbefore.decryption hget⟩
    by_cases hother : other = topic
    · subst hother
      obtain rfl := Option.some.inj ((Slots.get?_put_self _ _ _).symm.trans hget)
      exact ⟨answer, hmade, _, hrecent, now, hlater _ hnow, hlater _ hanswer, hexpiry⟩
    · exact hbefore.encryption ((Slots.get?_put_of_ne _ _ hother).symm.trans hget)
  | @decryption now topic version keyName material kept _ hnow hanswer hmade hexpiry =>
    refine ⟨fun hget => hbefore.encryption hget, fun {topic' version' keyName' kept'} hget => ?_⟩
    by_cases hother : ((topic', version', keyName') : OldKey) = (topic, version, keyName)
    · obtain ⟨rfl, rfl, rfl⟩ := Prod.mk.inj hother |>.imp_right Prod.mk.inj
      obtain rfl := Option.some.inj ((Slots.get?_put_self _ _ _).symm.trans hget)
      exact ⟨material, hmade, _, hrecent, now, hlater _ hnow, hlater _ hanswer, hexpiry⟩
    · exact hbefore.decryption ((Slots.get?_put_of_ne _ _ hother).symm.trans hget)

/-- **Where the slots of the memory come from**, after any run. -/
theorem recalls_of_run (h : Run (perform options) fresh steps s) : s.1.Recalls options steps := by
  induction h with
  | start => exact Memory.recalls_empty options []
  | call call _ hgives ih =>
    by_cases hcall : call = .invalidate
    · subst hcall
      obtain rfl := gives_invalidate.mp hgives
      exact Memory.recalls_empty options _
    · exact ih.step hcall hgives

/-! ## What is used -/

/-- The exchange takes place on the way from the one place to the other, or it took place in a
recent step, and on the way the clock shows that less than the longest lifetime has passed since. -/
def Current (options : EngineOptions) (steps : List (Step Call Place)) (s t : Place)
    (exchange : Exchange Question Answer) : Prop :=
  Dialogue.Said s.2 t.2 exchange ∨
    ∃ now : { now : Instant // now.IsTold }, Dialogue.Said s.2 t.2 ⟨.time, now⟩ ∧
      ∃ step ∈ recent steps, ∃ reading : { now : Instant // now.IsTold },
        Dialogue.Said step.before.2 step.after.2 ⟨.time, reading⟩ ∧
          Dialogue.Said step.before.2 step.after.2 exchange ∧
            now.1 < reading.1.add options.longestLife

/-- What is current on a way is current on a longer one. -/
theorem Current.later {exchange : Exchange Question Answer} (h : Current options steps s t exchange)
    (hlater : t.2 <+: u.2) : Current options steps s u exchange := by
  rcases h with hsaid | ⟨now, hnow, hold⟩
  · exact .inl (hsaid.later hlater)
  · exact .inr ⟨now, hnow.later hlater, hold⟩

/-- **The key of a lookup was made from a current answer**, if its slot recalls one. -/
theorem Turn.current {α κ : Type} {l : Lookup Outside α κ} {q : Question}
    {answer : Except KeyError α → Answer q} {key : κ}
    (h : Turn options l q answer s.1 s.2 (.ok key) t)
    (hslot : ∀ kept, l.slot s.1 = some kept → ∃ a, l.make a = .ok kept.value ∧
      Recalled options steps ⟨q, answer (.ok a)⟩ kept.expiresAt) :
    ∃ a, l.make a = .ok key ∧ Current options steps s t ⟨q, answer (.ok a)⟩ := by
  cases h with
  | @kept now _ hkept =>
    obtain ⟨kept, hget, hlive, rfl⟩ := exists_of_bind_live? hkept
    obtain ⟨a, hmade, step, hstep, reading, hreading, hsaid, hexpiry⟩ := hslot kept hget
    exact ⟨a, hmade, .inr ⟨now, Dialogue.said_append_iff.mpr (.head _), step, hstep,
      reading, hreading, hsaid, Instant.lt_of_lt_of_le hlive hexpiry⟩⟩
  | fetched _ hmade =>
    exact ⟨_, hmade, .inl (Dialogue.said_append_iff.mpr (.tail _ (.head _)))⟩

theorem Memory.Recalls.encryptionKey (h : s.1.Recalls options steps) {topic : String}
    {found : Option ActiveKey}
    (hgives : Gives ((standalone options).encryptionKey topic) s (.ok found) t) :
    ∃ answer, ActiveKey.ofAnswer answer = .ok found ∧
      Current options steps s t ⟨.encryptionKey topic, .ok answer⟩ :=
  (turn_of_encryptionKey hgives).current fun _ hget => h.encryption hget

theorem Memory.Recalls.decryptionKey (h : s.1.Recalls options steps) {topic : String}
    {version : Version} {keyName : Option String} {key : TopicKey}
    (hgives : Gives ((standalone options).decryptionKey topic version keyName) s (.ok key) t) :
    ∃ material, TopicKey.ofText material = .ok key ∧
      Current options steps s t ⟨.decryptionKey topic version keyName, .ok material⟩ :=
  (turn_of_decryptionKey hgives).current fun _ hget => h.decryption hget

/-- The envelope is what the answer about the key of its topic makes of a plaintext. -/
def Seals : Option KeyVersion → Bytes → Envelope → Prop
  | none, plaintext, envelope => envelope = .plaintext plaintext
  | some answer, plaintext, envelope =>
    ∃ key iv payload, TopicKey.ofText answer.material = .ok key ∧
      key.encrypt iv plaintext = .ok payload ∧
        envelope = ⟨payload, some iv, answer.version, answer.keyName⟩

theorem Memory.Recalls.encrypt (h : s.1.Recalls options steps) {topic : String} {plaintext : Bytes}
    {envelope : Envelope}
    (hgives : Gives ((standalone options).encrypt topic plaintext) s (.ok envelope) t) :
    ∃ answer, Current options steps s t ⟨.encryptionKey topic, .ok answer⟩ ∧
      Seals answer plaintext envelope := by
  generalize hr : (Except.ok envelope : Except EngineError Envelope) = r at hgives
  cases gives_encrypt.mp hgives with
  | failed _ => exact absurd hr (by simp)
  | passed hkey =>
    obtain ⟨answer, hmade, hcurrent⟩ := h.encryptionKey hkey
    rcases answer with _ | answer
    · exact ⟨none, hcurrent, Except.ok.inj hr⟩
    · obtain ⟨key, -, hfound⟩ := ActiveKey.ofAnswer_some_eq_ok_iff.mp hmade
      exact absurd hfound.symm (Option.some_ne_none _)
  | sealed hkey hdrawn =>
    obtain ⟨answer, hmade, hcurrent⟩ := h.encryptionKey hkey
    obtain ⟨iv, payload, -, hpayload, rfl⟩ :=
      sealedUnder_eq_ok_iff.mp (mapError_eq_ok_iff.mp hr.symm)
    rcases answer with _ | answer
    · exact absurd (Except.ok.inj hmade).symm (Option.some_ne_none _)
    · obtain ⟨key, hmaterial, hfound⟩ := ActiveKey.ofAnswer_some_eq_ok_iff.mp hmade
      obtain rfl := Option.some.inj hfound
      exact ⟨some answer, hcurrent.later (gives_later hdrawn), key, iv, payload, hmaterial,
        hpayload, rfl⟩

theorem Memory.Recalls.decrypt (h : s.1.Recalls options steps) {topic : String}
    {envelope : Envelope} {iv plaintext : Bytes} (hiv : envelope.cipherIv? = some iv)
    (hgives : Gives ((standalone options).decrypt topic envelope) s (.ok plaintext) t) :
    ∃ material key, Current options steps s t
        ⟨.decryptionKey topic envelope.version envelope.keyName, .ok material⟩ ∧
      TopicKey.ofText material = .ok key ∧ key.decrypt iv envelope.payload = .ok plaintext := by
  generalize hr : (Except.ok plaintext : Except EngineError Bytes) = r at hgives
  cases gives_decrypt.mp hgives with
  | passed hnone => exact absurd (hnone.symm.trans hiv) (Option.some_ne_none iv).symm
  | failed _ _ => exact absurd hr (by simp)
  | opened hsome hkey =>
    obtain rfl := Option.some.inj (hsome.symm.trans hiv)
    obtain ⟨material, hmade, hcurrent⟩ := h.decryptionKey hkey
    exact ⟨material, _, hcurrent, hmade, mapError_eq_ok_iff.mp hr.symm⟩

/-! ## Failures -/

/-- What is not live is not live at any later time. -/
theorem bind_live?_eq_none_of_le {α : Type} {slot : Option (Kept α)} {now later : Instant}
    (h : slot.bind (·.live? now) = none) (hle : now ≤ later) :
    slot.bind (·.live? later) = none := by
  rcases hlater : slot.bind (·.live? later) with _ | a
  · rfl
  · obtain ⟨kept, rfl, hlive, -⟩ := exists_of_bind_live? hlater
    have hnow : kept.live? now = some kept.value := if_pos (Instant.lt_of_le_of_lt hle hlive)
    exact absurd (h.symm.trans hnow) (Option.some_ne_none _).symm

theorem Memory.Lacks.later {memory : Memory} {now later : Instant} {q : Question}
    (h : memory.Lacks now q) (hle : now ≤ later) : memory.Lacks later q := by
  cases q with
  | encryptionKey topic => exact bind_live?_eq_none_of_le h hle
  | decryptionKey topic version keyName => exact bind_live?_eq_none_of_le h hle
  | _ => exact h

variable {call next : Call} {exchange : Exchange Question Answer}

/-- **A call that finds no key keeps nothing**, and nothing live was in the slot for it. -/
theorem Served.of_noKey (h : Served options call s t) (hsaid : Dialogue.Said s.2 t.2 exchange)
    (hno : NoKey exchange) :
    t.1 = s.1 ∧ ∃ now, Dialogue.Said s.2 t.2 ⟨.time, now⟩ ∧ s.1.Lacks now.1 exchange.question := by
  cases h with
  | idle _ =>
    obtain ⟨said, hsame, hmem⟩ := hsaid
    rw [List.self_eq_append_right.mp hsame] at hmem
    exact absurd hmem List.not_mem_nil
  | @encryption topic found t rest _ hlookup hrest =>
    have hturn := turn_of_encryptionKey hlookup
    have hfirst : Dialogue.Said s.2 t.2 exchange := by
      refine (Dialogue.said_append_or hsaid (gives_later hlookup)).resolve_right fun hmem => ?_
      exact not_noKey_of_vector (hrest exchange hmem) hno
    obtain ⟨hsame, now, hnow, hlacks⟩ :=
      hturn.of_noKey (asks_encryptionLookup options topic) hfirst hno
    exact ⟨hsame, now, hnow.later (List.prefix_append t.2 rest), hlacks⟩
  | @decryption topic version keyName _ _ _ hlookup =>
    exact (turn_of_decryptionKey hlookup).of_noKey
      (asks_decryptionLookup options topic version keyName) hsaid hno

/-- A call asks for the key that it needs, if nothing live is in the slot for it. -/
theorem Served.asks (h : Served options call s t) {q : Question} (hkey : call.key? = some q)
    (hlacks : ∀ now, Dialogue.Said s.2 t.2 ⟨.time, now⟩ → s.1.Lacks now.1 q) :
    ∃ answered, Dialogue.Said s.2 t.2 ⟨q, answered⟩ := by
  cases h with
  | idle hnone => exact absurd (hnone.symm.trans hkey) (Option.some_ne_none q).symm
  | @encryption topic found t rest hsome hlookup _ =>
    obtain rfl := Option.some.inj (hsome.symm.trans hkey)
    have hlater : t.2 <+: t.2 ++ rest := List.prefix_append t.2 rest
    obtain ⟨answered, hsaid⟩ := (turn_of_encryptionKey hlookup).asks
      (asks_encryptionLookup options topic) fun now hnow => hlacks now (hnow.later hlater)
    exact ⟨answered, hsaid.later hlater⟩
  | @decryption topic version keyName _ _ hsome hlookup =>
    obtain rfl := Option.some.inj (hsome.symm.trans hkey)
    exact (turn_of_decryptionKey hlookup).asks (asks_decryptionLookup options topic version keyName)
      hlacks

/-- **After a call that finds no key, the next one asks again**, unless the clock goes back. -/
theorem Served.asks_again (h : Served options call s t) (hsaid : Dialogue.Said s.2 t.2 exchange)
    (hno : NoKey exchange) (hnext : Served options next t u)
    (hkey : next.key? = some exchange.question)
    (hforward : ∀ now later, Dialogue.Said s.2 t.2 ⟨.time, now⟩ →
      Dialogue.Said t.2 u.2 ⟨.time, later⟩ → now.1 ≤ later.1) :
    ∃ answered, Dialogue.Said t.2 u.2 ⟨exchange.question, answered⟩ := by
  obtain ⟨hsame, now, hnow, hlacks⟩ := h.of_noKey hsaid hno
  refine hnext.asks hkey fun later hlater => ?_
  rw [hsame]
  exact hlacks.later (hforward now later hnow hlater)

/-! ## Over all runs -/

/-- What operations do after a run with the given steps. -/
structure Disciplined (options : EngineOptions) (steps : List (Step Call Place)) (s : Place) :
    Prop where
  /-- What is encrypted is encrypted by a current answer about its topic. -/
  encrypted {topic : String} {plaintext : Bytes} {envelope : Envelope} {t : Place} :
    Gives ((standalone options).encrypt topic plaintext) s (.ok envelope) t →
      ∃ answer, Current options steps s t ⟨.encryptionKey topic, .ok answer⟩ ∧
        Seals answer plaintext envelope
  /-- What is decrypted is decrypted by a current answer about the key that its envelope names. -/
  decrypted {topic : String} {envelope : Envelope} {iv plaintext : Bytes} {t : Place} :
    envelope.cipherIv? = some iv →
    Gives ((standalone options).decrypt topic envelope) s (.ok plaintext) t →
      ∃ material key, Current options steps s t
          ⟨.decryptionKey topic envelope.version envelope.keyName, .ok material⟩ ∧
        TopicKey.ofText material = .ok key ∧ key.decrypt iv envelope.payload = .ok plaintext
  /-- No call asks for more than one key. -/
  asked {call : Call} {t : Place} : Gives (perform options call) s () t →
    ∃ said, t.2 = s.2 ++ said ∧ (keyQuestions said).length ≤ 1
  /-- A call that finds no key leaves the memory as it was. -/
  unchanged {call : Call} {t : Place} {exchange : Exchange Question Answer} :
    Gives (perform options call) s () t → Dialogue.Said s.2 t.2 exchange → NoKey exchange →
      t.1 = s.1
  /-- And the next call that needs the key asks for it, unless the clock goes back. -/
  again {call next : Call} {t u : Place} {exchange : Exchange Question Answer} :
    Gives (perform options call) s () t → Dialogue.Said s.2 t.2 exchange → NoKey exchange →
    next.key? = some exchange.question → Gives (perform options next) t () u →
    (∀ now later, Dialogue.Said s.2 t.2 ⟨.time, now⟩ → Dialogue.Said t.2 u.2 ⟨.time, later⟩ →
      now.1 ≤ later.1) →
      ∃ answered, Dialogue.Said t.2 u.2 ⟨exchange.question, answered⟩

/-- A call in which something is said does not only forget. -/
theorem ne_invalidate_of_said (h : Gives (perform options call) s () t)
    (hsaid : Dialogue.Said s.2 t.2 exchange) : call ≠ .invalidate := by
  rintro rfl
  obtain rfl := gives_invalidate.mp h
  obtain ⟨said, hsame, hmem⟩ := hsaid
  rw [List.self_eq_append_right.mp hsame] at hmem
  exact absurd hmem List.not_mem_nil

/-- **No answer is used for another key than that which was asked for, none that is too old, and
none from before everything was forgotten**, and no failure is kept, after any run and for all
sources of keys and clocks. -/
theorem disciplined_of_run (h : Run (perform options) fresh steps s) :
    Disciplined options steps s where
  encrypted hgives := (recalls_of_run h).encrypt hgives
  decrypted hiv hgives := (recalls_of_run h).decrypt hiv hgives
  asked {call t} hgives := by
    by_cases hcall : call = .invalidate
    · subst hcall
      obtain rfl := gives_invalidate.mp hgives
      exact ⟨[], (List.append_nil _).symm, Nat.zero_le 1⟩
    · obtain ⟨said, hsaid, hact⟩ := act_of_served (served_of_gives hcall hgives)
      exact ⟨said, hsaid, hact.length_keyQuestions_le⟩
  unchanged hgives hsaid hno :=
    ((served_of_gives (ne_invalidate_of_said hgives hsaid) hgives).of_noKey hsaid hno).1
  again {call next t u exchange} hgives hsaid hno hkey hnext hforward := by
    have hcall : next ≠ .invalidate := by
      rintro rfl
      exact absurd hkey (Option.some_ne_none _).symm
    exact (served_of_gives (ne_invalidate_of_said hgives hsaid) hgives).asks_again hsaid hno
      (served_of_gives hcall hnext) hkey hforward

/-! ## A clock that goes back -/

/-- Keys are kept for ten seconds. -/
def tenSeconds : EngineOptions := ⟨10, 0⟩

/-- A first reading of the clock. -/
def early : { now : Instant // now.IsTold } :=
  ⟨.ofSecond 100, Instant.isTold_ofSecond (by decide) (by decide)⟩

/-- A later one, when what was kept at first has expired. -/
def late : { now : Instant // now.IsTold } :=
  ⟨.ofSecond 200, Instant.isTold_ofSecond (by decide) (by decide)⟩

/-- A reading of a clock that went back, behind the expiry of what was kept at first. -/
def turnedBack : { now : Instant // now.IsTold } :=
  ⟨.ofSecond 105, Instant.isTold_ofSecond (by decide) (by decide)⟩

/-- The memory after the answer that the topic is not encrypted, and what was said until then. -/
def keptNone : Place :=
  (⟨Slots.empty.put "orders" ⟨none, expiryAfter early.1 tenSeconds.ttl .zero⟩, .empty⟩,
    [⟨.time, early⟩, ⟨.encryptionKey "orders", .ok none⟩,
      ⟨.jitter tenSeconds.maxJitter, ⟨.zero, Nat.zero_le _⟩⟩])

/-- Then the answer has expired, and the source of keys fails. -/
def failedLate : Place :=
  (keptNone.1, keptNone.2 ++ [⟨.time, late⟩, ⟨.encryptionKey "orders", .error (.store "sealed")⟩])

/-- Then the clock goes back, and the answer is live again. -/
def answeredEarly : Place := (keptNone.1, failedLate.2 ++ [⟨.time, turnedBack⟩])

theorem gives_keptNone : Gives (perform tenSeconds (.encrypt "orders" [])) fresh () keptNone :=
  gives_bind.mpr ⟨.ok (.plaintext []), keptNone,
    gives_encrypt.mpr (.passed (gives_encryptionKey.mpr (.fetched (gives_now.mpr ⟨early, rfl, rfl⟩)
      rfl (Dialogue.gives_question.mpr rfl) rfl
        (gives_expiry.mpr ⟨⟨.zero, Nat.zero_le _⟩, rfl, rfl⟩)))),
    gives_pure.mpr ⟨rfl, rfl⟩⟩

theorem gives_failedLate :
    Gives (perform tenSeconds (.encrypt "orders" [])) keptNone () failedLate :=
  gives_bind.mpr ⟨.error (.key (.store "sealed")), failedLate,
    gives_encrypt.mpr (.failed (gives_encryptionKey.mpr (.refused (gives_now.mpr ⟨late, rfl, rfl⟩)
      (by decide +kernel) (Dialogue.gives_question.mpr (List.append_assoc _ [_] [_]).symm)))),
    gives_pure.mpr ⟨rfl, rfl⟩⟩

theorem gives_answeredEarly :
    Gives (perform tenSeconds (.encrypt "orders" [])) failedLate () answeredEarly :=
  gives_bind.mpr ⟨.ok (.plaintext []), answeredEarly,
    gives_encrypt.mpr (.passed (gives_encryptionKey.mpr
      (.kept (gives_now.mpr ⟨turnedBack, rfl, rfl⟩) (by decide +kernel)))),
    gives_pure.mpr ⟨rfl, rfl⟩⟩

/-- The steps until then. -/
def failing : List (Step Call Place) :=
  [⟨.encrypt "orders" [], fresh, keptNone⟩, ⟨.encrypt "orders" [], keptNone, failedLate⟩]

/-- The answer that is live again is a current one. -/
theorem disciplined_at_failedLate :
    Run (perform tenSeconds) fresh failing failedLate ∧ Disciplined tenSeconds failing failedLate :=
  have hrun : Run (perform tenSeconds) fresh failing failedLate :=
    .call _ (.call _ .start gives_keptNone) gives_failedLate
  ⟨hrun, disciplined_of_run hrun⟩

/-- **Not every call after a failure asks again**: the clock may go back. -/
theorem not_forall_asks_again :
    ¬ ∀ (options : EngineOptions) (steps : List (Step Call Place)) (s t u : Place)
        (call next : Call)
      (exchange : Exchange Question Answer), Run (perform options) fresh steps s →
      Gives (perform options call) s () t → Dialogue.Said s.2 t.2 exchange → NoKey exchange →
      next.key? = some exchange.question → Gives (perform options next) t () u →
      ∃ answered, Dialogue.Said t.2 u.2 ⟨exchange.question, answered⟩ := by
  intro h
  have hfailed : Dialogue.Said keptNone.2 failedLate.2
      ⟨.encryptionKey "orders", .error (.store "sealed")⟩ :=
    Dialogue.said_append_iff.mpr (.tail _ (.head _))
  obtain ⟨answered, hsaid⟩ := h tenSeconds _ keptNone failedLate answeredEarly
    (.encrypt "orders" []) (.encrypt "orders" []) _ (.call _ .start gives_keptNone) gives_failedLate
    hfailed (fun _ _ hok => absurd hok (by simp)) rfl gives_answeredEarly
  have hmem := Dialogue.said_append_iff.mp hsaid
  exact absurd (congrArg Exchange.question (List.mem_singleton.mp hmem)) (by simp)

end TopicCipher.Engine
