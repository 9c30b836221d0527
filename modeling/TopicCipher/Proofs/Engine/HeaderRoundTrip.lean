import TopicCipher.Proofs.Cipher.Sealing
import TopicCipher.Proofs.Engine.Freshness
import TopicCipher.Proofs.Envelope.Headers

/-!
# Messages come back

A payload that was encrypted can be sent with its envelope in headers.  Who receives it reads the
same envelope from the headers and decrypts the same payload, whatever happened in between.

Two keys are at work, which come from two different questions: the one that is current when the
payload is encrypted, and an old one that the envelope names.  Either may be taken from memory.  So
all depends on the source of keys: old keys must stay what they are, and a key that is handed out to
encrypt under must be found again under its name.  Everything that an engine uses was answered, now
or earlier, so these two conditions on the history are all that is needed.

* `Steadfast`: the conditions.
* `Sealed`: what an encryption gives, and what a decryption makes of it.
* `decrypt_after_encrypt`: the round trip over all runs.
-/

namespace TopicCipher.Engine

variable {options : EngineOptions}

/-- The material of every old key, or why there is none. -/
abbrev OldKeys := String → Version → Option String → Except KeyError String

/-- The answers about old keys never change, and every key to encrypt under can be found again: its
version is positive, and what is answered about it as an old key makes the same key. -/
structure Steadfast (old : OldKeys) (history : History) : Prop where
  same {topic : String} {version : Version} {keyName : Option String} {r : Except KeyError String} :
    ⟨.decryptionKey topic version keyName, r⟩ ∈ history → r = old topic version keyName
  found {topic : String} {handed : KeyVersion} :
    ⟨.encryptionKey topic, .ok (some handed)⟩ ∈ history →
      0 < handed.version ∧ ∀ key, TopicKey.ofText handed.material = .ok key →
        ∃ material, old topic handed.version handed.keyName = .ok material ∧
          TopicKey.ofText material = .ok key

theorem Steadfast.earlier {old : OldKeys} {before after : History} (h : Steadfast old after)
    (hlater : before <+: after) : Steadfast old before where
  same hmem := h.same (hlater.subset hmem)
  found hmem := h.found (hlater.subset hmem)

theorem Steadfast.append {old : OldKeys} {before said : History} (hbefore : Steadfast old before)
    (hsaid : Steadfast old said) : Steadfast old (before ++ said) where
  same hmem := (List.mem_append.mp hmem).elim hbefore.same hsaid.same
  found hmem := (List.mem_append.mp hmem).elim hbefore.found hsaid.found

/-! ## Answers of the whole history -/

/-- What is current after a run was answered at some time. -/
theorem Current.mem {steps : List (Step Call Place)} {s t : Place}
    {exchange : Exchange Question Answer} (h : Current options steps s t exchange)
    (hrun : Run (perform options) fresh steps s) (hlater : s.2 <+: t.2) : exchange ∈ t.2 := by
  rcases h with hsaid | ⟨-, -, step, hstep, -, -, hsaid, -⟩
  · exact hsaid.mem
  · have hmem : step ∈ steps := (List.rtakeWhile_suffix _ _).subset hstep
    have hafter : step.after.2 <+: s.2 := (hrun.of_mem hmem).2.2
    exact (hafter.trans hlater).subset hsaid.mem

/-- The envelope is the plaintext, sealed as an old key of the source would unseal it. -/
inductive Sealed (old : OldKeys) (topic : String) (plaintext : Bytes) : Envelope → Prop where
  | passed : Sealed old topic plaintext (.plaintext plaintext)
  | sealed {version : Version} {keyName : Option String} {material : String} {key : TopicKey}
      {iv payload : Bytes} (hversion : 0 < version)
      (hold : old topic version keyName = .ok material)
      (hkey : TopicKey.ofText material = .ok key)
      (hsealed : key.encrypt iv plaintext = .ok payload) :
      Sealed old topic plaintext ⟨payload, some iv, version, keyName⟩

variable {old : OldKeys} {topic : String} {plaintext : Bytes} {envelope : Envelope} {s t u : Place}

/-- **What an encryption gives** while the source of keys is steadfast. -/
theorem sealed_of_encrypt (hreaches : Reaches (perform options) fresh s)
    (hgives : Gives ((standalone options).encrypt topic plaintext) s (.ok envelope) t)
    (hsteady : Steadfast old t.2) : Sealed old topic plaintext envelope := by
  obtain ⟨steps, hrun⟩ := hreaches.exists_run
  obtain ⟨answer, hcurrent, hseals⟩ := (recalls_of_run hrun).encrypt hgives
  have hanswered := hcurrent.mem hrun (gives_later hgives)
  rcases answer with _ | handed
  · obtain rfl := hseals
    exact .passed
  · obtain ⟨key, iv, payload, hkey, hpayload, rfl⟩ := hseals
    obtain ⟨hversion, hfound⟩ := hsteady.found hanswered
    obtain ⟨material, hold, hmaterial⟩ := hfound key hkey
    exact .sealed hversion hold hmaterial hpayload

/-- The envelope has the shape that headers can carry. -/
theorem Sealed.toEnvelope_ofEnvelope (h : Sealed old topic plaintext envelope) :
    Headers.toEnvelope envelope.payload (Headers.ofEnvelope envelope) = .ok envelope := by
  cases h with
  | passed => exact Headers.toEnvelope_ofEnvelope_plaintext plaintext
  | sealed hversion _ _ hsealed =>
    exact Headers.toEnvelope_ofEnvelope (Option.isSome_iff_exists.mpr ⟨_,
      Envelope.cipherIv?_eq_some_iff.mpr ⟨rfl, TopicKey.iv_ne_nil_of_encrypt hsealed, hversion⟩⟩)

/-- A steadfast source gives the key that is on record, also when it is taken from memory. -/
theorem decryptionKey_eq_of_steadfast (hreaches : Reaches (perform options) fresh s)
    {version : Version} {keyName : Option String} {material : String} {key : TopicKey}
    (hold : old topic version keyName = .ok material) (hkey : TopicKey.ofText material = .ok key)
    {r : Except EngineError TopicKey}
    (hgives : Gives ((standalone options).decryptionKey topic version keyName) s r t)
    (hsteady : Steadfast old t.2) : r = .ok key := by
  have hsame {answered : Except KeyError String}
      (hmem : ⟨.decryptionKey topic version keyName, answered⟩ ∈ t.2) : answered = .ok material :=
    (hsteady.same hmem).trans hold
  rcases r with err | found
  · generalize hr : (Except.error err : Except EngineError TopicKey) = r at hgives
    generalize hlater : t.2 = later at hsame
    cases turn_of_decryptionKey hgives with
    | kept _ => exact absurd hr (by simp)
    | refused _ =>
      subst hlater
      exact absurd (hsame (List.mem_append_right _ (.tail _ (.head _)))) (by simp)
    | @unusable _ answered _ _ hmade =>
      subst hlater
      obtain rfl : answered = material :=
        Except.ok.inj (hsame (List.mem_append_right _ (.tail _ (.head _))))
      exact absurd (hkey.symm.trans hmade) (by simp)
    | fetched _ _ => exact absurd hr (by simp)
  · obtain ⟨steps, hrun⟩ := hreaches.exists_run
    obtain ⟨answered, hmade, hcurrent⟩ := (recalls_of_run hrun).decryptionKey hgives
    obtain rfl : answered = material :=
      Except.ok.inj (hsame (hcurrent.mem hrun (gives_later hgives)))
    exact congrArg Except.ok (Except.ok.inj (hmade.symm.trans hkey))

/-- **What a decryption makes of it** is the plaintext. -/
theorem Sealed.decrypt (h : Sealed old topic plaintext envelope)
    (hreaches : Reaches (perform options) fresh s) {r : Except EngineError Bytes}
    (hgives : Gives ((standalone options).decrypt topic envelope) s r t)
    (hsteady : Steadfast old t.2) : r = .ok plaintext := by
  cases h with
  | passed =>
    cases gives_decrypt.mp hgives with
    | passed _ => rfl
    | failed hiv _ => exact absurd hiv (by simp)
    | opened hiv _ => exact absurd hiv (by simp)
  | @sealed version keyName material key iv payload hversion hold hkey hsealed =>
    have hcipher : Envelope.cipherIv? ⟨payload, some iv, version, keyName⟩ = some iv :=
      Envelope.cipherIv?_eq_some_iff.mpr ⟨rfl, TopicKey.iv_ne_nil_of_encrypt hsealed, hversion⟩
    cases gives_decrypt.mp hgives with
    | passed hiv => exact absurd (hcipher.symm.trans hiv) (Option.some_ne_none iv)
    | failed _ hlookup =>
      exact absurd (decryptionKey_eq_of_steadfast hreaches hold hkey hlookup hsteady) (by simp)
    | opened hiv hlookup =>
      obtain rfl := Option.some.inj (hcipher.symm.trans hiv)
      obtain rfl :=
        Except.ok.inj (decryptionKey_eq_of_steadfast hreaches hold hkey hlookup hsteady)
      exact mapError_eq_ok_iff.mpr (TopicKey.decrypt_of_encrypt hsealed)

/-! ## A steadfast outside -/

/-- An outside that is asked for keys to encrypt under in vain, and answers about old keys by the
record. -/
def byRecord (old : OldKeys) : (q : Question) → Answer q
  | .time => ⟨.ofSecond 0, Instant.isTold_ofSecond (by decide) (by decide)⟩
  | .jitter _ => ⟨.zero, Nat.zero_le _⟩
  | .encryptionKey _ => .ok none
  | .decryptionKey topic version keyName => old topic version keyName
  | .vector => .ok []

theorem steadfast_byRecord {history : History} (h : Dialogue.Obeys (byRecord old) history) :
    Steadfast old history where
  same hmem := eq_of_heq (Exchange.mk.inj (h _ hmem)).2
  found hmem := by
    have hnone := Except.ok.inj (eq_of_heq (Exchange.mk.inj (h _ hmem)).2)
    exact absurd hnone (Option.some_ne_none _)

/-- While the source of keys is steadfast, a steadfast outside leads every computation to an end. -/
theorem exists_gives_of_steadfast (h : Steadfast old s.2) {α : Type} (x : StateT Memory Outside α) :
    ∃ a t, Steadfast old t.2 ∧ Gives x s a t :=
  have hsaid : Dialogue.Obeys (byRecord old) ((x.run s.1).under (byRecord old)).2 :=
    fun _ => Dialogue.answer_eq_of_mem_under (byRecord old) _
  ⟨_, _, h.append (steadfast_byRecord hsaid),
    (Dialogue.execution (byRecord old)).layer.gives_run x s⟩

/-! ## Over all runs -/

/-- **Messages come back**: while the source of keys is steadfast, what was encrypted is read from
its headers as it was sent, and at any later time it can be decrypted, and only to what it was. -/
theorem decrypt_after_encrypt (old : OldKeys) (hbefore : Reaches (perform options) fresh s)
    (hencrypt : Gives ((standalone options).encrypt topic plaintext) s (.ok envelope) t)
    (hbetween : Reaches (perform options) t u) (hsteady : Steadfast old u.2) :
    ∃ received,
      Headers.toEnvelope envelope.payload (Headers.ofEnvelope envelope) = .ok received ∧
        (∀ r v, Gives ((standalone options).decrypt topic received) u r v → Steadfast old v.2 →
          r = .ok plaintext) ∧
        ∃ v, Steadfast old v.2 ∧
          Gives ((standalone options).decrypt topic received) u (.ok plaintext) v := by
  have hsealed := sealed_of_encrypt hbefore hencrypt (hsteady.earlier hbetween.later)
  have hcall : Gives (perform options (.encrypt topic plaintext)) s () t :=
    gives_bind.mpr ⟨_, _, hencrypt, gives_pure.mpr ⟨rfl, rfl⟩⟩
  have hreaches : Reaches (perform options) fresh u := (hbefore.call _ hcall).trans hbetween
  refine ⟨envelope, hsealed.toEnvelope_ofEnvelope, fun r v => hsealed.decrypt hreaches, ?_⟩
  obtain ⟨r, v, hv, hgives⟩ :=
    exists_gives_of_steadfast hsteady ((standalone options).decrypt topic envelope)
  obtain rfl := hsealed.decrypt hreaches hgives hv
  exact ⟨v, hv, hgives⟩

/-- The material of the only key there is. -/
def onlyMaterial : String := "AAECAwQFBgcICQoLDA0ODxAREhMUFRYXGBkaGxwdHh8="

/-- One key, with a line break after its material. -/
def onlyOld : OldKeys
  | "orders", 3, some "value" => .ok (onlyMaterial ++ "\n")
  | _, _, _ => .error (.store "sealed")

/-- The outside when this key is current. -/
def onlyCurrent : (q : Question) → Answer q
  | .encryptionKey topic =>
    .ok (if topic = "orders" then some ⟨3, some "value", onlyMaterial⟩ else none)
  | .vector => .ok (List.replicate Gcm.ivLength 7)
  | q => byRecord onlyOld q

/-- Carries computations out with this outside. -/
def carrier : Execution (StateT Memory Outside) := (Dialogue.execution onlyCurrent).layer

theorem steadfast_onlyCurrent {history : History} (h : Dialogue.Obeys onlyCurrent history) :
    Steadfast onlyOld history where
  same hmem := eq_of_heq (Exchange.mk.inj (h _ hmem)).2
  found {topic handed} hmem := by
    have hhanded : some handed =
        if topic = "orders" then some ⟨3, some "value", onlyMaterial⟩ else none :=
      Except.ok.inj (eq_of_heq (Exchange.mk.inj (h _ hmem)).2)
    split at hhanded
    next htopic =>
      obtain rfl := Option.some.inj hhanded
      refine ⟨by decide, fun key hkey => ⟨onlyMaterial ++ "\n", by rw [htopic]; rfl, ?_⟩⟩
      rw [← hkey]
      exact TopicKey.ofText_congr (by decide +kernel)
    next => exact absurd hhanded (Option.some_ne_none handed)

/-- A payload comes back from its headers although the engine forgot its keys. -/
theorem decrypt_after_forgetting :
    ∃ envelope t u received v, envelope.isEncrypted = true ∧
      Gives ((standalone .standard).encrypt "orders" (Bytes.ofText "hello")) fresh
        (.ok envelope) t ∧
      Gives (perform .standard .invalidate) t () u ∧
      Headers.toEnvelope envelope.payload (Headers.ofEnvelope envelope) = .ok received ∧
      Gives ((standalone .standard).decrypt "orders" received) u
        (.ok (Bytes.ofText "hello")) v := by
  let x : StateT Memory Outside (Except EngineError Envelope) :=
    (standalone .standard).encrypt "orders" (Bytes.ofText "hello")
  let sent := carrier.run x fresh
  have hsent : Gives x fresh sent.1 sent.2 := carrier.gives_run x fresh
  have hok : (sent.1.toOption.map (·.isEncrypted)) = some true := by decide +kernel
  obtain ⟨envelope, henvelope, hencrypted⟩ :
      ∃ envelope, sent.1 = .ok envelope ∧ envelope.isEncrypted = true := by
    rcases h : sent.1 with err | envelope
    · simp [h, Except.toOption] at hok
    · exact ⟨envelope, rfl, by simpa [h, Except.toOption] using hok⟩
  have hforgot : Gives (perform .standard .invalidate) sent.2 () (Memory.empty, sent.2.2) :=
    gives_invalidate.mpr rfl
  have hnothing : Dialogue.Obeys onlyCurrent fresh.2 := fun _ hmem => absurd hmem List.not_mem_nil
  have hsteady : Steadfast onlyOld sent.2.2 :=
    steadfast_onlyCurrent (hnothing.under (x.run fresh.1))
  rw [henvelope] at hsent
  obtain ⟨received, hread, -, v, -, hopened⟩ :=
    decrypt_after_encrypt onlyOld .start hsent (.call .invalidate .start hforgot) hsteady
  exact ⟨envelope, sent.2, _, received, v, hencrypted, hsent, hforgot, hread, hopened⟩

end TopicCipher.Engine
