import TopicCipher.Proofs.Cipher.Sealing
import TopicCipher.Proofs.Dialogue
import TopicCipher.Proofs.Stack.Runs

/-!
# Failing closed

A payload of a topic that the rules encrypt leaves the stack encrypted or not at all.

There are three ways in which it could leak.  Some layer might answer that there is no key although
the rules want one.  Some layer might answer with a key of version `0`, whose envelopes count as
plaintext; the stored text may say anything, so this is a question about reading it as well.  And
the engine might remember either of these.  `keyedLaw` forbids both answers.  The store upholds it,
every text reads as entries that agree with it (`version_ne_zero_of_mem_parse`), and the layers
hand it on, so it holds whatever storage, clocks and randomness do.

* `grounded_keyedLaw`: every stack is grounded on `keyedLaw`.
* `encrypt_fails_closed`: what a run may lead to.
-/

namespace TopicCipher.Stack

/-- About a topic that the rules encrypt the answer is a key, and keys have positive versions. -/
def keyedLaw (resolver : TopicResolver) : AnswerLaw where
  encryption topic answer :=
    (resolver.isEncrypted topic = true → answer ≠ none) ∧
      ∀ key, answer = some key → 0 < key.version
  decryption _ _ _ _ := True

/-- Entries of keys to encrypt under have positive versions. -/
def IsKeyed (e : CacheEntry) : Prop := e.isEncryption = true → 0 < e.key.version

variable {m : Type → Type} [Monad m] {P C : Type} [Watched m P]

/-- A store answers with a key whenever the rules want one, and checks the version of the key. -/
theorem storeKeys_upholds_keyedLaw (k : StoreKeys m C) :
    k.source.Upholds (fun _ => keyedLaw k.resolver) fun _ : Option C × P => True where
  encryptionKey _ hgives := by
    refine ⟨trivial, fun answer hanswer => ?_⟩
    cases StoreKeys.encryptionLookup_of_gives hgives with
    | unkeyed hrules =>
      obtain rfl := Except.ok.inj hanswer
      exact ⟨fun h => absurd (hrules.symm.trans h) Bool.false_ne_true,
        fun key h => absurd h (by simp)⟩
    | fetched _ _ _ hkey =>
      obtain rfl := Except.ok.inj hanswer
      refine ⟨fun _ => Option.some_ne_none _, fun key h => ?_⟩
      obtain rfl := Option.some.inj h
      obtain ⟨metadata, material, -, hversion, -, rfl⟩ := Secret.currentKey_eq_ok_iff.mp hkey
      exact UInt32.pos_iff_ne_zero.mpr hversion
    | pathless _ _ => exact absurd hanswer (by simp)
    | refused _ _ _ => exact absurd hanswer (by simp)
    | unusable _ _ _ _ => exact absurd hanswer (by simp)
  decryptionKey _ _ := ⟨trivial, fun _ _ => trivial⟩

theorem entryLaw_keyedLaw (resolver : TopicResolver) : EntryLaw IsKeyed (keyedLaw resolver) where
  served hV henc := by
    refine ⟨fun _ => Option.some_ne_none _, fun key h => ?_⟩
    obtain rfl := Option.some.inj h
    exact hV henc
  servedOld _ _ := trivial
  stored {_ key} _ hlaw := fun _ => hlaw.2 key rfl
  storedOld _ := fun henc => absurd henc Bool.false_ne_true
  longer _ hV henc := fun _ => hV henc

/-- **Every stack is grounded** on answers that have keys where the rules want them. -/
theorem grounded_keyedLaw (k : Stack m C) :
    k.Grounded (fun _ => keyedLaw k.keys.resolver) (fun _ => IsKeyed) fun _ : P => True where
  lasts := AnswerLaw.lasts_const _
  later _ hV := hV
  keys := storeKeys_upholds_keyedLaw k.keys
  entries _ := entryLaw_keyedLaw _
  reread hV hreread := by
    obtain ⟨-, -, -, hkey⟩ := KeyCache.reread?_eq_some_iff.mp hreread
    intro henc
    rw [hkey]
    exact hV (KeyCache.isEncryption_of_reread? hreread ▸ henc)
  read _ _ := ⟨trivial, fun _ _ e he _ =>
    UInt32.pos_iff_ne_zero.mpr (KeyCache.version_ne_zero_of_mem_parse he)⟩
  write _ _ _ := trivial
  cacheTiming := ⟨keeps_true _, fun _ => keeps_true _⟩
  engineTiming := ⟨keeps_true _, fun _ => keeps_true _⟩
  freshIv := keeps_true _

/-- What is sealed under a key with a positive version counts as encrypted. -/
theorem isEncrypted_of_sealedUnder {key : Engine.ActiveKey} (hversion : 0 < key.version)
    {drawn : Except String Bytes} {plaintext : Bytes} {envelope : Envelope}
    (h : Engine.sealedUnder key drawn plaintext = .ok envelope) : envelope.isEncrypted = true := by
  obtain ⟨iv, payload, -, hsealed, rfl⟩ := Engine.sealedUnder_eq_ok_iff.mp h
  rw [Envelope.isEncrypted, Option.isSome_iff_exists]
  exact ⟨iv, Envelope.cipherIv?_eq_some_iff.mpr
    ⟨rfl, TopicKey.iv_ne_nil_of_encrypt hsealed, hversion⟩⟩

/-- Wherever the law holds, the key for a topic that the rules encrypt is there and has a positive
version. -/
theorem exists_key_of_keyedLaw {k : Stack m C} {topic : String}
    (hrules : k.keys.resolver.isEncrypted topic = true) {s t : Place C P}
    (hs : Grounds (fun _ => keyedLaw k.keys.resolver) (fun _ => True) s)
    {found : Option Engine.ActiveKey}
    (hgives : Gives (k.engine.encryptionKey topic) s (.ok found) t) :
    ∃ key, found = some key ∧ 0 < key.version := by
  obtain ⟨-, hfound⟩ := (grounded_keyedLaw k).engine.encryptionKey hs hgives
  obtain ⟨answer, ⟨hkeyed, hpositive⟩, hanswer⟩ := hfound found rfl
  rcases answer with _ | answer
  · exact absurd rfl (hkeyed hrules)
  · obtain ⟨key, -, rfl⟩ := Engine.ActiveKey.ofAnswer_some_eq_ok_iff.mp hanswer
    exact ⟨_, rfl, hpositive answer rfl⟩

/-- **A stack fails closed**: whatever the outside answers and whatever was done before, encrypting
a payload of a topic that the rules encrypt fails or gives an encrypted envelope. -/
theorem encrypt_fails_closed {Q : Type} {A : Q → Type} (k : Stack (Dialogue Q A) C)
    {topic : String} (hrules : k.keys.resolver.isEncrypted topic = true) {connection : Option C}
    {history : List (Exchange Q A)} {s t : Place C (List (Exchange Q A))}
    (hrun : Reaches k.perform (Engine.Memory.empty, connection, history) s) {plaintext : Bytes}
    {r : Except EngineError Envelope} (hgives : Gives (k.engine.encrypt topic plaintext) s r t) :
    (∃ err, r = .error err) ∨ ∃ envelope, r = .ok envelope ∧ envelope.isEncrypted = true := by
  have hs := (grounded_keyedLaw k).reaches trivial hrun
  cases Engine.gives_encrypt.mp hgives with
  | failed _ => exact .inl ⟨_, rfl⟩
  | passed hkey =>
    obtain ⟨key, hnone, -⟩ := exists_key_of_keyedLaw hrules hs hkey
    exact absurd hnone.symm (Option.some_ne_none key)
  | sealed hkey hdrawn =>
    obtain ⟨key, hsome, hversion⟩ := exists_key_of_keyedLaw hrules hs hkey
    obtain rfl := Option.some.inj hsome
    rename_i drawn
    cases hsealed : Engine.sealedUnder _ drawn plaintext with
    | error err => exact .inl ⟨.crypto err, rfl⟩
    | ok envelope => exact .inr ⟨envelope, rfl, isEncrypted_of_sealedUnder hversion hsealed⟩

/-! ## A storage that says too much -/

/-- A stack whose clocks stand still, whose store keeps one secret, and whose storage may say
anything. -/
def gossiping : Stack (Dialogue Unit fun _ => Except StorageError (Option String)) Unit where
  keys :=
    { resolver := .single ⟨"orders", "secret/orders", none⟩
      store :=
        { connect := return .ok ()
          read := fun _ _ => pure (.ok
            ⟨[("value", "AAECAwQFBgcICQoLDA0ODxAREhMUFRYXGBkaGxwdHh8=")],
              some ⟨3, .ofSecond 0⟩⟩) } }
  storage := { read := Dialogue.question (), write := fun _ => return .ok () }
  cacheTiming := { now := return .ofSecond 0, jitter := fun _ => return .zero }
  cacheOptions := .standard
  engineTiming := { now := return .ofSecond 0, jitter := fun _ => return .zero }
  freshIv := return .ok (List.replicate Gcm.ivLength 0)
  engineOptions := .standard

/-- A text with a live entry of version `0`. -/
def gossip : String :=
  "topicseal-key-cache v1\ntopic\torders\n" ++
    "0\t2020-01-01T00:00:00Z\tvalue\tAAECAwQFBgcICQoLDA0ODxAREhMUFRYXGBkaGxwdHh8=\n"

/-- Although the storage offers a live entry of version `0`, the payload is encrypted. -/
theorem encrypt_despite_gossip :
    ∃ envelope t, Gives (gossiping.engine.encrypt "orders" [1, 2, 3])
        ((Engine.Memory.empty, none, []) : Place Unit _) (.ok envelope) t ∧
      envelope.isEncrypted = true := by
  have hrules : gossiping.keys.resolver.isEncrypted "orders" = true := by decide
  let outcome := (Dialogue.execution fun _ : Unit =>
    (Except.ok (some gossip) : Except StorageError (Option String))).layer.layer.run
      (gossiping.engine.encrypt "orders" [1, 2, 3]) (Engine.Memory.empty, none, [])
  have hgives : Gives (gossiping.engine.encrypt "orders" [1, 2, 3])
      ((Engine.Memory.empty, none, []) : Place Unit _) outcome.1 outcome.2 :=
    Execution.gives_run _ _ _
  have hok : outcome.1.isOk = true := by decide +kernel
  rcases encrypt_fails_closed gossiping hrules .start hgives with ⟨err, h⟩ | ⟨envelope, h, henc⟩
  · rw [h] at hok
    exact absurd hok Bool.false_ne_true
  · exact ⟨envelope, outcome.2, h ▸ hgives, henc⟩

end TopicCipher.Stack
