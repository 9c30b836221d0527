import TopicCipher.Proofs.Engine.Authenticity
import TopicCipher.Proofs.Stack.Archive

/-!
# Fields come back

A text that was encoded as a field of an encrypted topic can be decoded at any later time, whatever
happened in between.

Encoding and decoding meet at `SealedField`: the field is the text, sealed under a key whose
material is that of a published version.  The field itself names the version only, so decoding has
to find the same material again, without its name.  It may come from the memory of the engine, from
the stored text or from the archive, and everywhere it obeys the law of the archive.  There is one
material of a version up to blanks, and blanks do not change the key.  For the same reason stored
entries never contradict each other.  So nothing can go wrong but an outage of the store.

* `sealedField_of_encodeField`: what encoding gives.
* `decryptionKey_of_isCurrent`: the material of a published version is found again.
* `decodeField_of_sealedField`: what decoding makes of it.
* `decodeField_after_encodeField`: the round trip over all runs.
-/

namespace TopicCipher.Archive

/-- The places of a stack on an archive. -/
abbrev Place := Stack.Place Unit (World × History)

/-- What was said so far. -/
abbrev said (s : Place) : History := s.2.2.2

variable {a : Archive} {resolver : TopicResolver} {cacheOptions : CachingOptions}
  {engineOptions : EngineOptions}

/-- The places at which everything obeys the law of the archive. -/
abbrev Lawful (a : Archive) (resolver : TopicResolver) : Place → Prop :=
  Stack.Grounds (a.law resolver) (a.Sound resolver)

/-! ## Encoding -/

/-- The field is the text, sealed under a published key of the topic. -/
inductive SealedField (a : Archive) (resolver : TopicResolver) (history : History)
    (topic text field : String) : Prop where
  | intro {version : Version} {iv payload : Bytes} {material : String} {key : TopicKey}
      (hmarked : Field.isMarked field = true)
      (hsaid : Field.Says field version iv payload)
      (hcurrent : a.IsCurrent resolver history topic version material)
      (hkey : TopicKey.ofText material = .ok key)
      (hsealed : key.encrypt iv (Bytes.ofText text) = .ok payload) :
      SealedField a resolver history topic text field

/-- A sealed field stays one. -/
theorem SealedField.later {before after : History} {topic text field : String}
    (h : a.SealedField resolver before topic text field) (hlater : before <+: after) :
    a.SealedField resolver after topic text field := by
  obtain ⟨hmarked, hsaid, hcurrent, hkey, hsealed⟩ := h
  exact ⟨hmarked, hsaid, hcurrent.later hlater, hkey, hsealed⟩

/-- The key that the engine finds for an encrypted topic is a published one. -/
theorem isCurrent_of_encryptionKey {topic : String} (hrules : resolver.isEncrypted topic = true)
    {s t : Place} (hs : a.Lawful resolver s) {found : Option Engine.ActiveKey}
    (hgives : Gives ((a.stack resolver cacheOptions engineOptions).engine.encryptionKey topic) s
      (.ok found) t) :
    ∃ key material, found = some key ∧
      a.IsCurrent resolver (said t) topic key.version material ∧
      TopicKey.ofText material = .ok key.key := by
  obtain ⟨-, hfound⟩ :=
    (a.grounded resolver cacheOptions engineOptions).engine.encryptionKey hs hgives
  obtain ⟨answer, hlaw, hanswer⟩ := hfound found rfl
  obtain ⟨_, rfl, hcurrent⟩ := hlaw hrules
  obtain ⟨key, hkey, rfl⟩ := Engine.ActiveKey.ofAnswer_some_eq_ok_iff.mp hanswer
  exact ⟨_, _, rfl, hcurrent, hkey⟩

/-- **What encoding gives** for an encrypted topic is a sealed field. -/
theorem sealedField_of_encodeField {topic text field : String}
    (hrules : resolver.isEncrypted topic = true) {s t : Place} (hs : a.Lawful resolver s)
    (hgives : Gives ((a.stack resolver cacheOptions engineOptions).engine.encodeField topic
      (some text)) s (.ok (some field)) t) :
    a.SealedField resolver (said t) topic text field := by
  obtain ⟨sealed, hencrypt, hr⟩ := Engine.gives_encodeField.mp hgives
  rcases sealed with err | envelope
  · exact absurd hr (by simp [Except.bind])
  obtain ⟨_, hencode, hfield⟩ := map_eq_ok_iff.mp (mapError_eq_ok_iff.mp hr.symm)
  obtain rfl := Option.some.inj hfield
  generalize hok : (Except.ok envelope : Except EngineError Envelope) = r at hencrypt
  cases Engine.gives_encrypt.mp hencrypt with
  | failed _ => exact absurd hok (by simp)
  | passed hkey =>
    obtain ⟨key, material, hnone, -⟩ := isCurrent_of_encryptionKey hrules hs hkey
    exact absurd hnone.symm (Option.some_ne_none key)
  | sealed hkey hdrawn =>
    obtain ⟨key, material, hsome, hcurrent, hmaterial⟩ := isCurrent_of_encryptionKey hrules hs hkey
    obtain rfl := Option.some.inj hsome
    obtain ⟨iv, payload, -, hpayload, rfl⟩ :=
      Engine.sealedUnder_eq_ok_iff.mp (mapError_eq_ok_iff.mp hok.symm)
    obtain ⟨hmarked, hsaid⟩ := Field.says_of_encode (TopicKey.iv_ne_nil_of_encrypt hpayload)
      hcurrent.version_pos hencode
    exact ⟨hmarked, hsaid, hcurrent.later (gives_later hdrawn), hmaterial, hpayload⟩

/-! ## Decoding -/

/-- Stored entries that agree with the law do not contradict each other. -/
theorem findDecryption_ne_ambiguous_of_agrees {s : World × History} {entries : List CacheEntry}
    (h : ∀ e ∈ entries, a.Agrees resolver s e) {topic : String} {version : Version}
    {keyName : Option String} {material : String}
    (hholds : a.Holds resolver topic version keyName material) (candidates : Nat) :
    KeyCache.findDecryption entries topic version keyName ≠ .ambiguous candidates := by
  have hsame : ∀ e ∈ entries, e.isEncryption = false → e.topic = topic →
      e.key.version = version → e.key.keyName = keyName →
      e.key.material = Text.trim material := by
    intro e he hdec htopic hversion hkeyName
    have hentry := (h e he).decryption hdec
    rw [htopic, hversion, hkeyName] at hentry
    rw [← (h e he).trimmed, hentry.unique hholds]
  exact KeyCache.findDecryption_ne_ambiguous hsame candidates

/-- The key of a published version can always be read, except during an outage. -/
theorem decryptionKey_of_keys {topic : String} {version : Version} {material : String}
    {s t : Option Unit × World × History} (hs : a.Sound resolver s.2)
    (hcurrent : a.IsCurrent resolver s.2.2 topic version material) {err : KeyError}
    (hgives : Gives ((a.keys resolver).decryptionKey topic version none) s (.error err) t) :
    ∃ reason, err = .store reason ∧ RefusesBetween s.2.2 t.2.2 reason := by
  obtain ⟨⟨path, hpath, hpublished⟩, path', original, hpath', hmaterial, -⟩ := hcurrent
  obtain rfl := Except.ok.inj (hpath.symm.trans hpath')
  generalize hr : (Except.error err : Except KeyError String) = r at hgives
  cases StoreKeys.decryptionLookup_of_gives hgives with
  | pathless hnopath => exact absurd (hpath.symm.trans hnopath) (by simp)
  | refused hsame hread =>
    obtain rfl := Except.error.inj hr
    obtain rfl := Except.ok.inj (hpath.symm.trans hsame)
    exact (hs.read_some hread).2.2 _ rfl hpublished
  | unusable hsame hread hkey =>
    obtain rfl := Except.ok.inj (hpath.symm.trans hsame)
    obtain rfl := (hs.read_some hread).2.1 _ rfl
    have hpinned := Secret.pinnedKey_eq_ok_iff.mpr
      ⟨fun metadata (hmetadata : some _ = some metadata) => by
        rw [← Option.some.inj hmetadata], hmaterial⟩
    exact absurd (hkey.symm.trans hpinned) (by simp)
  | fetched _ _ _ => exact absurd hr (by simp)

/-- **The material of a published version is found again**, except during an outage. -/
theorem decryptionKey_of_isCurrent {topic : String} {version : Version} {material : String}
    {key : TopicKey} (hkey : TopicKey.ofText material = .ok key) {s t : Place}
    (hs : a.Lawful resolver s)
    (hcurrent : a.IsCurrent resolver (said s) topic version material)
    {r : Except EngineError TopicKey}
    (hgives : Gives ((a.stack resolver cacheOptions engineOptions).engine.decryptionKey topic
      version none) s r t) :
    r = .ok key ∨
      ∃ reason, r = .error (.key (.store reason)) ∧ RefusesBetween (said s) (said t) reason := by
  have hground := a.grounded resolver cacheOptions engineOptions
  have hsame {material' : String} (h : a.Holds resolver topic version none material') :
      TopicKey.ofText material' = .ok key := by
    rw [TopicKey.ofText_congr (h.unique hcurrent.2), hkey]
  rcases r with err | found
  · right
    generalize hr : (Except.error err : Except EngineError TopicKey) = r at hgives
    cases Engine.gives_decryptionKey.mp hgives with
    | kept _ _ => exact absurd hr (by simp)
    | refused hnow _ hasked =>
      have hq := hground.engine.timing.now hs.2 hnow
      have hearlier : _ <+: _ := gives_later hnow
      cases CachedKeys.decryptionLookup_of_gives hasked with
      | ambiguous hload hfind =>
        exact absurd hfind
          (findDecryption_ne_ambiguous_of_agrees (hground.load hq hload).2 hcurrent.2 _)
      | failed hload _ hread =>
        have hlater : _ <+: _ := later_trans (gives_later hnow) (gives_later hload)
        obtain ⟨reason, rfl, hrefuses⟩ := decryptionKey_of_keys (hground.load hq hload).1
          (hcurrent.later hlater) hread
        exact ⟨reason, rfl, hrefuses.earlier hlater⟩
    | unusable hnow _ hasked herror =>
      have hq := hground.engine.timing.now hs.2 hnow
      have hholds := (hground.engine.keys.decryptionKey hq hasked).2 _ rfl
      exact absurd (herror.symm.trans (hsame hholds)) (by simp)
    | fetched _ _ _ _ _ => exact absurd hr (by simp)
  · left
    obtain ⟨material', hholds, hfound⟩ := (hground.engine.decryptionKey hs hgives).2 found rfl
    exact congrArg Except.ok (Except.ok.inj (hfound.symm.trans (hsame hholds)))

/-- **What decoding makes of a sealed field** is its text, unless there is an outage. -/
theorem decodeField_of_sealedField {topic text field : String} {s t : Place}
    (hs : a.Lawful resolver s) (hfield : a.SealedField resolver (said s) topic text field)
    {r : Except EngineError (Option String)}
    (hgives : Gives ((a.stack resolver cacheOptions engineOptions).engine.decodeField topic
      (some field)) s r t) :
    r = .ok (some text) ∨
      ∃ reason, r = .error (.key (.store reason)) ∧ RefusesBetween (said s) (said t) reason := by
  obtain ⟨hmarked, hsaid, hcurrent, hkey, hsealed⟩ := hfield
  rename_i version iv payload material key
  have hread : Field.decode field = .ok ⟨payload, some iv, version, none⟩ :=
    (Field.decode_eq_ok_iff hmarked).mpr ⟨_, _, _, hsaid, rfl⟩
  have hcipher : Envelope.cipherIv? ⟨payload, some iv, version, none⟩ = some iv :=
    Envelope.cipherIv?_eq_some_iff.mpr
      ⟨rfl, TopicKey.iv_ne_nil_of_encrypt hsealed, hcurrent.version_pos⟩
  rcases (Engine.gives_decodeField_of_isMarked hmarked).mp hgives with
    ⟨err, hrefused, -, -⟩ | ⟨envelope, opened, hdecode, hopened, rfl⟩
  · exact absurd (hread.symm.trans hrefused) (by simp)
  obtain rfl := Except.ok.inj (hread.symm.trans hdecode)
  cases Engine.gives_decrypt.mp hopened with
  | passed hiv => exact absurd (hcipher.symm.trans hiv) (Option.some_ne_none iv)
  | failed _ hlookup =>
    rcases decryptionKey_of_isCurrent hkey hs hcurrent hlookup with hok | ⟨reason, herr, hrefuses⟩
    · exact absurd hok (by simp)
    · obtain rfl := Except.error.inj herr
      exact .inr ⟨reason, rfl, hrefuses⟩
  | opened hiv hlookup =>
    rcases decryptionKey_of_isCurrent hkey hs hcurrent hlookup with hok | ⟨reason, herr, -⟩
    · obtain rfl := Except.ok.inj hok
      obtain rfl := Option.some.inj (hcipher.symm.trans hiv)
      left
      rw [TopicKey.decrypt_of_encrypt hsealed]
      show ((Engine.fieldText (Bytes.ofText text)).map some).mapError _ = _
      rw [Engine.fieldText_eq_ok_iff.mpr rfl]
      rfl
    · exact absurd herr (by simp)

/-! ## Over all runs -/

/-- **Fields come back**: over an archive, a text that was encoded as a field of an encrypted topic
is decoded at any later time, whatever is done and whatever fails in between.  If it is not, the
archive has just shown an outage. -/
theorem decodeField_after_encodeField (a : Archive) (resolver : TopicResolver)
    (cacheOptions : CachingOptions) (engineOptions : EngineOptions) {topic text field : String}
    (hrules : resolver.isEncrypted topic = true) {connection : Option Unit}
    {s₁ s₂ s₃ s₄ : Place} {r : Except EngineError (Option String)}
    (hbefore : Reaches (a.stack resolver cacheOptions engineOptions).perform
      (Engine.Memory.empty, connection, World.fresh, []) s₁)
    (hencode : Gives ((a.stack resolver cacheOptions engineOptions).engine.encodeField topic
      (some text)) s₁ (.ok (some field)) s₂)
    (hbetween : Reaches (a.stack resolver cacheOptions engineOptions).perform s₂ s₃)
    (hdecode : Gives ((a.stack resolver cacheOptions engineOptions).engine.decodeField topic
      (some field)) s₃ r s₄) :
    r = .ok (some text) ∨
      ∃ reason, r = .error (.key (.store reason)) ∧ RefusesBetween (said s₃) (said s₄) reason := by
  have hground := a.grounded resolver cacheOptions engineOptions
  have hs₁ : a.Lawful resolver s₁ := hground.reaches sound_fresh hbefore
  have hs₂ : a.Lawful resolver s₂ :=
    hground.engine.keeps_encodeField topic (some text) hs₁ hencode
  have hs₃ : a.Lawful resolver s₃ := hbetween.invariant hground.keeps_perform hs₂
  have hfield := sealedField_of_encodeField hrules hs₁ hencode
  exact decodeField_of_sealedField hs₃ (hfield.later hbetween.later) hdecode

/-! ## A calm outside -/

/-- An archive with one key. -/
def oneKey : Archive where
  attributes _ _ := [("value", "AAECAwQFBgcICQoLDA0ODxAREhMUFRYXGBkaGxwdHh8=\n")]
  created _ _ := .ofSecond 0
  named h := by
    rw [List.mem_singleton.mp h]
    decide

/-- The outside when nothing fails and no time passes. -/
def calm : (q : Question) → Answer q
  | .connect => none
  | .newest _ => .ok ⟨3, by decide⟩
  | .recall _ _ => none
  | .guess _ _ => none
  | .readText => none
  | .writeText _ => (true, .ok ())
  | .cacheTime => .ofSecond 0
  | .cacheJitter _ => .zero
  | .engineTime => .ofSecond 0
  | .engineJitter _ => .zero
  | .vector => .ok (List.replicate Gcm.ivLength 7)

/-- A calm outside shows no outage. -/
theorem not_refuses_calm (q : Question) (reason : String) : ¬ Refuses ⟨q, calm q⟩ reason := by
  cases q <;> simp [Refuses, calm]

/-- The stack on this archive. -/
def calmStack : Stack Outside Unit :=
  oneKey.stack (.single ⟨"orders", "secret/orders", none⟩) .standard .standard

/-- Carries computations out while the outside is calm. -/
def calmly : Execution (StateT Engine.Memory (StateT (Option Unit) Outside)) :=
  (Dialogue.execution calm).layer.layer.layer

theorem not_refusesBetween_calmly {α : Type}
    (x : StateT Engine.Memory (StateT (Option Unit) Outside) α) (s : Place) (reason : String) :
    ¬ RefusesBetween (said s) (said (calmly.run x s).2) reason := by
  rintro ⟨new, hnew, exchange, hmem, hrefuses⟩
  rw [← List.append_cancel_left hnew] at hmem
  rw [Dialogue.answer_eq_of_mem_under calm _ hmem] at hrefuses
  exact not_refuses_calm _ reason hrefuses

/-- A field comes back although the engine forgot its keys and the stored text was cleared. -/
theorem decodeField_after_invalidate_and_clear :
    ∃ field s₂ s₃ s₄,
      Gives (calmStack.engine.encodeField "orders" (some "hello"))
        ((Engine.Memory.empty, none, World.fresh, []) : Place) (.ok (some field)) s₂ ∧
      Reaches calmStack.perform s₂ s₃ ∧
      Gives (calmStack.engine.decodeField "orders" (some field)) s₃ (.ok (some "hello")) s₄ := by
  let encoded := calmly.run (calmStack.engine.encodeField "orders" (some "hello"))
    ((Engine.Memory.empty, none, World.fresh, []) : Place)
  have hencode : Gives (calmStack.engine.encodeField "orders" (some "hello"))
      ((Engine.Memory.empty, none, World.fresh, []) : Place) encoded.1 encoded.2 :=
    calmly.gives_run _ _
  have hok : encoded.1.toOption.join.isSome = true := by decide +kernel
  obtain ⟨field, hfield⟩ : ∃ field, encoded.1 = .ok (some field) := by
    rcases h : encoded.1 with err | _ | field
    · simp [h, Except.toOption] at hok
    · simp [h, Except.toOption] at hok
    · exact ⟨field, rfl⟩
  rw [hfield] at hencode
  let forgot := calmly.run (calmStack.perform .invalidate) encoded.2
  let cleared := calmly.run (calmStack.perform .clear) forgot.2
  have hbetween : Reaches calmStack.perform encoded.2 cleared.2 :=
    .call .clear (.call .invalidate .start (calmly.gives_run _ _)) (calmly.gives_run _ _)
  have hdecode := calmly.gives_run (calmStack.engine.decodeField "orders" (some field)) cleared.2
  rcases decodeField_after_encodeField oneKey (.single ⟨"orders", "secret/orders", none⟩)
    .standard .standard (by decide) .start hencode hbetween hdecode with h | ⟨reason, -, hrefuses⟩
  · exact ⟨field, _, _, _, hencode, hbetween, h ▸ hdecode⟩
  · exact absurd hrefuses (not_refusesBetween_calmly _ _ reason)

end TopicCipher.Archive
