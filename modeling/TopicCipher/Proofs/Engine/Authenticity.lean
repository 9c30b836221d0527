import TopicCipher.Proofs.Cipher.Sealing
import TopicCipher.Proofs.Dialogue
import TopicCipher.Proofs.Engine.Lookups
import TopicCipher.Proofs.Envelope.Field
import TopicCipher.Proofs.Envelope.Headers
import TopicCipher.Proofs.Results

/-!
# What is handed back without a check

Text from a marked field and payloads from messages with crypto headers should only be handed back
after the tag was checked.  Both readers build an envelope, and the engine decides by the shape of
the envelope whether there is a tag to check at all.  So the question is which shapes the readers
let through.

The reader of fields refuses version `0`, but an empty vector passes.  The reader of headers passes
both.  An envelope of such a shape counts as plaintext and is handed back as it is, without a key
and without a tag.

* `decodeField_gives_text_iff`: what a marked field gives, exactly.
* `decrypt_gives_bytes_iff`: what a message with crypto headers gives, exactly.
-/

namespace TopicCipher.Engine

section Decisions

variable {m : Type → Type} [Monad m] {P : Type} [Watched m P]

/-- The cipher accepts a ciphertext with its tag under the key of a version, and the bytes are what
it gives. -/
def Opens (e : Engine m) (topic : String) (version : Version) (keyName : Option String)
    (iv ciphertext : Bytes) (s : Memory × P) (bytes : Bytes) (t : Memory × P) : Prop :=
  ∃ key, Gives (e.decryptionKey topic version keyName) s (.ok key) t ∧ iv.length = Gcm.ivLength ∧
    Gcm.decrypt? key.bytes iv ciphertext = some bytes

variable {e : Engine m} {topic : String} {s t : Memory × P} {bytes : Bytes}

/-- The cipher opens nothing under an empty vector. -/
theorem Opens.iv_ne_nil {version : Version} {keyName : Option String} {iv ciphertext : Bytes}
    (h : e.Opens topic version keyName iv ciphertext s bytes t) : iv ≠ [] := by
  obtain ⟨-, -, hlength, -⟩ := h
  rintro rfl
  exact absurd hlength (by decide)

/-- A decryption gives bytes because the cipher accepts them, or because the envelope counts as
plaintext. -/
theorem gives_decrypt_ok_iff {envelope : Envelope} :
    Gives (e.decrypt topic envelope) s (.ok bytes) t ↔
      (∃ iv, envelope.cipherIv? = some iv ∧
        e.Opens topic envelope.version envelope.keyName iv envelope.payload s bytes t) ∨
      (envelope.cipherIv? = none ∧ bytes = envelope.payload ∧ t = s) := by
  constructor
  · intro h
    generalize hr : (Except.ok bytes : Except EngineError Bytes) = r at h
    cases gives_decrypt.mp h with
    | passed hiv => exact .inr ⟨hiv, Except.ok.inj hr, rfl⟩
    | failed _ _ => exact absurd hr (by simp)
    | opened hiv hkey =>
      obtain ⟨hlength, hopened⟩ :=
        TopicKey.decrypt_eq_ok_iff.mp (mapError_eq_ok_iff.mp hr.symm)
      exact .inl ⟨_, hiv, _, hkey, hlength, hopened⟩
  · rintro (⟨iv, hiv, key, hkey, hlength, hopened⟩ | ⟨hiv, rfl, rfl⟩)
    · have hbytes : (key.decrypt iv envelope.payload).mapError EngineError.crypto = .ok bytes :=
        mapError_eq_ok_iff.mpr (TopicKey.decrypt_eq_ok_iff.mpr ⟨hlength, hopened⟩)
      rw [← hbytes]
      exact gives_decrypt.mpr (.opened hiv hkey)
    · exact gives_decrypt.mpr (.passed hiv)

/-- An envelope with a vector counts as plaintext exactly if the vector is empty or the version is
`0`. -/
theorem gives_decrypt_ok_iff_of_iv {payload iv : Bytes} {version : Version}
    {keyName : Option String} :
    Gives (e.decrypt topic ⟨payload, some iv, version, keyName⟩) s (.ok bytes) t ↔
      (0 < version ∧ e.Opens topic version keyName iv payload s bytes t) ∨
      ((version = 0 ∨ iv = []) ∧ bytes = payload ∧ t = s) := by
  rw [gives_decrypt_ok_iff]
  have hplain : Envelope.cipherIv? ⟨payload, some iv, version, keyName⟩ = none ↔
      version = 0 ∨ iv = [] := by
    rw [Option.eq_none_iff_forall_ne_some]
    simp only [ne_eq, Envelope.cipherIv?_eq_some_iff, Option.some.injEq, not_and, forall_eq',
      UInt32.pos_iff_ne_zero, not_not]
    exact or_iff_not_imp_right.symm
  rw [hplain]
  refine or_congr_left ⟨?_, fun ⟨hversion, h⟩ => ?_⟩
  · rintro ⟨iv', hiv, h⟩
    obtain ⟨hsome, -, hversion⟩ := Envelope.cipherIv?_eq_some_iff.mp hiv
    obtain rfl := Option.some.inj hsome
    exact ⟨hversion, h⟩
  · exact ⟨iv, Envelope.cipherIv?_eq_some_iff.mpr ⟨rfl, h.iv_ne_nil, hversion⟩, h⟩

/-- A decrypted field is text exactly if the decrypted bytes are that text. -/
theorem fieldText_eq_ok_iff {text : String} :
    fieldText bytes = .ok text ↔ bytes = Bytes.ofText text := by
  rw [fieldText]
  constructor
  · intro h
    split at h
    next found hfound =>
      obtain rfl := Except.ok.inj h
      exact (Bytes.ofText_of_toText? hfound).symm
    next => exact absurd h (by simp)
  · rintro rfl
    rw [Bytes.toText?_ofText]

/-- A marked field gives a text exactly if it says something that decrypts to the text. -/
theorem gives_decodeField_ok_iff {value text : String} (hmarked : Field.isMarked value = true) :
    Gives (e.decodeField topic (some value)) s (.ok (some text)) t ↔
      ∃ version iv ciphertext, Field.Says value version iv ciphertext ∧
        Gives (e.decrypt topic ⟨ciphertext, some iv, version, none⟩) s
          (.ok (Bytes.ofText text)) t := by
  have hresult {opened : Except EngineError Bytes} :
      .ok (some text) = opened.bind (fun plaintext =>
        ((fieldText plaintext).map some).mapError EngineError.crypto) ↔
      opened = .ok (Bytes.ofText text) := by
    rcases opened with err | plaintext
    · simp [Except.bind]
    · rw [Except.ok.injEq, ← fieldText_eq_ok_iff, eq_comm, Except.bind, mapError_eq_ok_iff,
        map_eq_ok_iff]
      simp
  rw [gives_decodeField_of_isMarked hmarked]
  constructor
  · rintro (⟨err, -, hr, -⟩ | ⟨envelope, opened, hdecode, hopened, hr⟩)
    · exact absurd hr (by simp)
    · obtain ⟨version, iv, ciphertext, hsaid, rfl⟩ := (Field.decode_eq_ok_iff hmarked).mp hdecode
      exact ⟨version, iv, ciphertext, hsaid, hresult.mp hr ▸ hopened⟩
  · rintro ⟨version, iv, ciphertext, hsaid, hopened⟩
    exact .inr ⟨_, _, (Field.decode_eq_ok_iff hmarked).mpr ⟨version, iv, ciphertext, hsaid, rfl⟩,
      hopened, hresult.mpr rfl⟩

end Decisions

/-! ## Fields and messages -/

variable {Q : Type} {A : Q → Type}

/-- **What a marked field gives**: text that the cipher accepts, or, if the segment of the vector is
empty, the ciphertext segment as it is. -/
theorem decodeField_gives_text_iff (e : Engine (Dialogue Q A)) {topic value text : String}
    (hmarked : Field.isMarked value = true) {s t : Memory × List (Exchange Q A)} :
    Gives (e.decodeField topic (some value)) s (.ok (some text)) t ↔
      ∃ version iv ciphertext, Field.Says value version iv ciphertext ∧
        (e.Opens topic version none iv ciphertext s (Bytes.ofText text) t ∨
          (iv = [] ∧ Bytes.ofText text = ciphertext ∧ t = s)) := by
  rw [gives_decodeField_ok_iff hmarked]
  constructor
  · rintro ⟨version, iv, ciphertext, hsaid, hgives⟩
    refine ⟨version, iv, ciphertext, hsaid, ?_⟩
    rcases gives_decrypt_ok_iff_of_iv.mp hgives with ⟨-, hopens⟩ | ⟨hplain, hbytes, ht⟩
    · exact .inl hopens
    · exact .inr ⟨hplain.resolve_left hsaid.version_ne_zero, hbytes, ht⟩
  · rintro ⟨version, iv, ciphertext, hsaid, hopens | ⟨hiv, hbytes, ht⟩⟩
    · exact ⟨version, iv, ciphertext, hsaid, gives_decrypt_ok_iff_of_iv.mpr
        (.inl ⟨UInt32.pos_iff_ne_zero.mpr hsaid.version_ne_zero, hopens⟩)⟩
    · exact ⟨version, iv, ciphertext, hsaid,
        gives_decrypt_ok_iff_of_iv.mpr (.inr ⟨.inr hiv, hbytes, ht⟩)⟩

/-- An engine whose source of keys fails. -/
def keyless : Engine (Dialogue Unit fun _ => Unit) where
  keys :=
    { encryptionKey := fun _ => return .error (.store "sealed")
      decryptionKey := fun _ _ _ => return .error (.store "sealed") }
  timing := { now := return .ofSecond 0, jitter := fun _ => return .zero }
  freshIv := return .ok (List.replicate Gcm.ivLength 0)
  options := .standard

/-- A marked field with an empty segment for the vector. -/
def hollowField : String := "encAesV1.3..cGxhaW4="

theorem says_hollowField : Field.Says hollowField 3 [] (Bytes.ofText "plain") :=
  ⟨_, _, _, _, rfl, by decide, by decide, by decide, by decide⟩

/-- A hollow field gives its ciphertext segment, although there is no key. -/
theorem decodeField_gives_hollow_text :
    Gives (keyless.decodeField "orders" (some hollowField)) (Memory.empty, [])
      (.ok (some "plain")) (Memory.empty, []) :=
  (decodeField_gives_text_iff keyless (by decide)).mpr
    ⟨3, [], _, says_hollowField, .inr ⟨rfl, rfl, rfl⟩⟩

/-- So text from a marked field was not always accepted by the cipher. -/
theorem not_forall_decodeField_opens :
    ¬ ∀ (e : Engine (Dialogue Unit fun _ => Unit)) (topic value text : String)
      (s t : Memory × List (Exchange Unit fun _ => Unit)), Field.isMarked value = true →
      Gives (e.decodeField topic (some value)) s (.ok (some text)) t →
      ∃ version iv ciphertext, Field.Says value version iv ciphertext ∧
        e.Opens topic version none iv ciphertext s (Bytes.ofText text) t := by
  intro h
  have hgives : Gives (keyless.decodeField "orders" (some hollowField)) (Memory.empty, [])
      (.ok (some "plain")) (Memory.empty, []) :=
    (gives_decodeField_ok_iff (by decide)).mpr
      ⟨3, [], _, says_hollowField, gives_decrypt_ok_iff_of_iv.mpr (.inr ⟨.inr rfl, rfl, rfl⟩)⟩
  obtain ⟨version, iv, ciphertext, hsaid, hopens⟩ :=
    h keyless "orders" hollowField "plain" _ _ (by decide) hgives
  exact hopens.iv_ne_nil (hsaid.unique says_hollowField).2.1

/-- **What a message with crypto headers gives**: bytes that the cipher accepts, or, if the headers
name version `0` or their last vector is empty, the payload as it is. -/
theorem decrypt_gives_bytes_iff (e : Engine (Dialogue Q A)) {topic : String} {payload : Bytes}
    {headers : List (String × Bytes)} {envelope : Envelope} (hcarries : Headers.Carries headers)
    (henvelope : Headers.toEnvelope payload headers = .ok envelope)
    {s t : Memory × List (Exchange Q A)} {bytes : Bytes} :
    ∃ version keyName iv, (Headers.said headers).key = .ok (some (version, keyName)) ∧
      Headers.last? Headers.ivHeader headers = some iv ∧
      (Gives (e.decrypt topic envelope) s (.ok bytes) t ↔
        (0 < version ∧ e.Opens topic version keyName iv payload s bytes t) ∨
        ((version = 0 ∨ iv = []) ∧ bytes = payload ∧ t = s)) := by
  obtain ⟨version, keyName, iv, hkey, hiv, rfl⟩ :=
    Headers.exists_parts_of_toEnvelope hcarries henvelope
  exact ⟨version, keyName, iv, hkey, hiv, gives_decrypt_ok_iff_of_iv⟩

/-- Headers with a vector and version `0`. -/
def nullHeaders : List (String × Bytes) :=
  [("x-enc-iv", List.replicate Gcm.ivLength 7), ("x-enc-key-version", Bytes.ofText "0")]

/-- The envelope of a payload with these headers. -/
def nullEnvelope : Envelope :=
  ⟨Bytes.ofText "plain", some (List.replicate Gcm.ivLength 7), 0, none⟩

theorem toEnvelope_nullHeaders :
    Headers.toEnvelope (Bytes.ofText "plain") nullHeaders = .ok nullEnvelope := by
  rfl

theorem carries_nullHeaders : Headers.Carries nullHeaders :=
  ⟨_, List.mem_cons_self, .inl rfl⟩

/-- With version `0` the payload comes back as it is, although there is no key. -/
theorem decrypt_gives_null_payload :
    Gives (keyless.decrypt "orders" nullEnvelope) (Memory.empty, [])
      (.ok (Bytes.ofText "plain")) (Memory.empty, []) := by
  obtain ⟨version, keyName, iv, hkey, -, hiff⟩ :=
    decrypt_gives_bytes_iff keyless carries_nullHeaders toEnvelope_nullHeaders
  have hsaid : (Headers.said nullHeaders).key = .ok (some (0, none)) := by rfl
  obtain ⟨rfl, -⟩ := Prod.mk.inj (Option.some.inj (Except.ok.inj (hsaid.symm.trans hkey)))
  exact hiff.mpr (.inr ⟨.inl rfl, rfl, rfl⟩)

/-- An engine without keys opens nothing. -/
theorem not_opens_keyless {topic : String} {version : Version} {keyName : Option String}
    {iv ciphertext bytes : Bytes} {history : List (Exchange Unit fun _ => Unit)}
    {t : Memory × List (Exchange Unit fun _ => Unit)} :
    ¬ keyless.Opens topic version keyName iv ciphertext (Memory.empty, history) bytes t := by
  rintro ⟨key, hkey, -⟩
  generalize hs :
    ((Memory.empty, history) : Memory × List (Exchange Unit fun _ => Unit)) = s at hkey
  generalize hr : (Except.ok key : Except EngineError TopicKey) = r at hkey
  cases gives_decryptionKey.mp hkey with
  | kept _ hkept =>
    obtain ⟨rfl, -⟩ := Prod.mk.inj hs
    exact absurd hkept (by simp [decryptionLookup, Memory.empty])
  | refused _ _ _ => exact absurd hr (by simp)
  | unusable _ _ _ _ => exact absurd hr (by simp)
  | fetched _ _ hasked _ _ => exact absurd (gives_pure.mp hasked).1 (by simp)

/-- So a payload that came with crypto headers was not always accepted by the cipher. -/
theorem not_forall_decrypt_opens :
    ¬ ∀ (e : Engine (Dialogue Unit fun _ => Unit)) (topic : String) (payload bytes : Bytes)
      (headers : List (String × Bytes)) (envelope : Envelope)
      (s t : Memory × List (Exchange Unit fun _ => Unit)), Headers.Carries headers →
      Headers.toEnvelope payload headers = .ok envelope →
      Gives (e.decrypt topic envelope) s (.ok bytes) t →
      ∃ version keyName iv, e.Opens topic version keyName iv payload s bytes t := by
  intro h
  have hgives : Gives (keyless.decrypt "orders" nullEnvelope) (Memory.empty, [])
      (.ok (Bytes.ofText "plain")) (Memory.empty, []) :=
    gives_decrypt_ok_iff_of_iv.mpr (.inr ⟨.inl rfl, rfl, rfl⟩)
  obtain ⟨version, keyName, iv, hopens⟩ :=
    h keyless "orders" _ _ _ _ _ _ carries_nullHeaders toEnvelope_nullHeaders hgives
  exact not_opens_keyless hopens

end TopicCipher.Engine
