import TopicCipher.Proofs.Determined
import TopicCipher.Proofs.Engine.Authenticity

/-!
# Fields of topics that are not encrypted

A value of a topic without a key is written as it is.  The reader does not look at the topic: it
goes by the mark alone.  So a value without the mark comes back, and nobody is asked for a key.

There is no other form for a value that happens to begin with the mark.  It is read as an encrypted
field, and whatever comes of that, it is not the value: base64 and the tag take room, so a text that
is opened is shorter than the field it is in.

* `length_lt_of_decodeField`: what a marked field gives is shorter than the field.
* `encodeField_eq_of_none`: without a key, a value is written as it is.
* `decodeField_after_encodeField_without_key`: when such a value comes back.
-/

namespace TopicCipher

/-! ## Lengths -/

/-- A text has no more characters than bytes. -/
theorem Bytes.length_le_length_ofText (text : String) :
    text.toList.length ≤ (ofText text).length := by
  have hsize (cs : List Char) : cs.length ≤ cs.utf8Encode.size := by
    induction cs with
    | nil => exact Nat.zero_le _
    | cons c cs ih =>
      have hpos := c.utf8Size_pos
      have hcons : (c :: cs).utf8Encode.size = c.utf8Size + cs.utf8Encode.size := by
        rw [List.utf8Encode_cons, ByteArray.size_append, List.utf8Encode_singleton,
          List.size_toByteArray, String.length_utf8EncodeChar]
      rw [hcons, List.length_cons]
      omega
  have htext := hsize text.toList
  rwa [String.utf8Encode_toList] at htext

namespace Field

/-- An envelope that counts as plaintext is written as its text. -/
theorem encode_plaintext (text : String) : encode (.plaintext (Bytes.ofText text)) = .ok text := by
  have hpayload : (Envelope.plaintext (Bytes.ofText text)).payload = Bytes.ofText text := rfl
  simp only [encode, Envelope.cipherIv?_plaintext, hpayload, Bytes.toText?_ofText]

end Field

namespace Engine

section Fields

variable {m : Type → Type} [Monad m] {P : Type} [Watched m P] {e : Engine m}
  {topic value : String} {s t u : Memory × P}

/-- What a marked field gives is shorter than the field. -/
theorem length_lt_of_decodeField {text : String} (hmarked : Field.isMarked value = true)
    (h : Gives (e.decodeField topic (some value)) s (.ok (some text)) t) :
    (Bytes.ofText text).length < value.toList.length := by
  obtain ⟨version, iv, ciphertext, hsaid, hdecrypt⟩ := (gives_decodeField_ok_iff hmarked).mp h
  have hfield := hsaid.length_lt
  rcases gives_decrypt_ok_iff_of_iv.mp hdecrypt with ⟨-, key, -, -, hopened⟩ | ⟨-, hbytes, -⟩
  · have hsealed := Gcm.length_of_encrypt? (Gcm.decrypt?_eq_some_iff.mp hopened)
    omega
  · rwa [hbytes]

/-- A marked field never gives itself. -/
theorem not_gives_decodeField_self (hmarked : Field.isMarked value = true) :
    ¬ Gives (e.decodeField topic (some value)) s (.ok (some value)) t := by
  intro h
  have hshorter := length_lt_of_decodeField hmarked h
  have hbytes := Bytes.length_le_length_ofText value
  omega

/-- A value without the mark comes back, and nothing happens on the way. -/
theorem decodeField_of_not_isMarked (hvalue : Field.isMarked value = false) :
    e.decodeField topic (some value) = pure (.ok (some value)) := by
  rw [decodeField, hvalue]
  rfl

/-- Without a key, a value is written as it is. -/
theorem encodeField_eq_of_none [Determined m] {r : Except EngineError (Option String)}
    (hnone : Gives (e.encryptionKey topic) s (.ok none) t)
    (hencode : Gives (e.encodeField topic (some value)) s r u)
    (hwithin : Later (StateT Memory m) t u) : r = .ok (some value) := by
  obtain ⟨encrypted, hencrypted, rfl⟩ := gives_encodeField.mp hencode
  -- Both lookups begin at one place and lie in one history, so the one of the encryption finds no
  -- key either.
  cases gives_encrypt.mp hencrypted with
  | failed hkey =>
    obtain ⟨hfound, -⟩ := determined (m := StateT Memory m) hkey hnone (later_refl _ _) hwithin
    exact absurd hfound (by simp)
  | passed hkey =>
    show ((Field.encode (.plaintext (Bytes.ofText value))).map some).mapError EngineError.crypto = _
    rw [Field.encode_plaintext]
    rfl
  | sealed hkey hdrawn =>
    have hafter : Later m _ _ := gives_later hdrawn
    obtain ⟨hfound, -⟩ := determined (m := StateT Memory m) hkey hnone hafter hwithin
    exact absurd hfound (by simp)

/-- **Without a key, a value is written as it is, and it comes back exactly if it is not marked.**
It comes back without a look at the keys. -/
theorem decodeField_after_encodeField_without_key [Determined m]
    {r : Except EngineError (Option String)}
    (hnone : Gives (e.encryptionKey topic) s (.ok none) t)
    (hencode : Gives (e.encodeField topic (some value)) s r u)
    (hwithin : Later (StateT Memory m) t u) :
    r = .ok (some value) ∧
      (Field.isMarked value = false →
        e.decodeField topic (some value) = pure (.ok (some value))) ∧
      (Field.isMarked value = true →
        ∀ v w, ¬ Gives (e.decodeField topic (some value)) v (.ok (some value)) w) :=
  ⟨encodeField_eq_of_none hnone hencode hwithin, decodeField_of_not_isMarked,
    fun hmarked _ _ => not_gives_decodeField_self hmarked⟩

end Fields

/-- An engine whose source has no key for any topic. -/
def unkeyed : Engine (Dialogue Unit fun _ => Unit) :=
  { keyless with keys := { keyless.keys with encryptionKey := fun _ => return .ok none } }

/-- The memory of this engine after its first lookup. -/
def Memory.afterNone (topic : String) : Memory :=
  { Memory.empty with
    encryption := Slots.empty.put topic
      ⟨none, expiryAfter (.ofSecond 0) unkeyed.options.ttl .zero⟩ }

theorem gives_encryptionKey_unkeyed (topic : String) :
    Gives (unkeyed.encryptionKey topic) (Memory.empty, []) (.ok none)
      (Memory.afterNone topic, []) := by
  have hnow : Gives unkeyed.timing.now [] (.ofSecond 0) [] := gives_pure.mpr ⟨rfl, rfl⟩
  have hasked : Gives (unkeyed.keys.encryptionKey topic) [] (.ok none) [] :=
    gives_pure.mpr ⟨rfl, rfl⟩
  have hexpiry : Gives (unkeyed.expiry (.ofSecond 0)) []
      (expiryAfter (.ofSecond 0) unkeyed.options.ttl .zero) [] :=
    gives_bind.mpr ⟨.zero, [], gives_pure.mpr ⟨rfl, rfl⟩, gives_pure.mpr ⟨rfl, rfl⟩⟩
  exact gives_encryptionKey.mpr (.fetched hnow rfl hasked rfl hexpiry)

/-- It writes every value as it is. -/
theorem gives_encodeField_unkeyed (topic value : String) :
    Gives (unkeyed.encodeField topic (some value)) (Memory.empty, []) (.ok (some value))
      (Memory.afterNone topic, []) := by
  refine gives_encodeField.mpr
    ⟨_, gives_encrypt.mpr (.passed (gives_encryptionKey_unkeyed topic)), ?_⟩
  show _ = ((Field.encode (.plaintext (Bytes.ofText value))).map some).mapError EngineError.crypto
  rw [Field.encode_plaintext]
  rfl

/-- A plain value comes back from it; one that begins with the mark is written as it is, and never
comes back. -/
theorem decodeField_after_encodeField_unkeyed :
    unkeyed.decodeField "orders" (some "plain") = pure (.ok (some "plain")) ∧
      Gives (unkeyed.encodeField "orders" (some "encAesV1.note")) (Memory.empty, [])
        (.ok (some "encAesV1.note")) (Memory.afterNone "orders", []) ∧
      ∀ v w, ¬ Gives (unkeyed.decodeField "orders" (some "encAesV1.note")) v
        (.ok (some "encAesV1.note")) w := by
  have hnone := gives_encryptionKey_unkeyed "orders"
  have hencode := gives_encodeField_unkeyed "orders" "encAesV1.note"
  obtain ⟨-, hback, -⟩ := decodeField_after_encodeField_without_key hnone
    (gives_encodeField_unkeyed "orders" "plain") (later_refl _ _)
  obtain ⟨-, -, hlost⟩ := decodeField_after_encodeField_without_key hnone hencode (later_refl _ _)
  exact ⟨hback (by decide), hencode, hlost (by decide)⟩

/-- So not every value of a topic without a key comes back. -/
theorem not_forall_decodeField_after_encodeField :
    ¬ ∀ (e : Engine (Dialogue Unit fun _ => Unit)) (topic value encoded : String)
      (s t u v : Memory × List (Exchange Unit fun _ => Unit)),
      Gives (e.encryptionKey topic) s (.ok none) t →
      Gives (e.encodeField topic (some value)) s (.ok (some encoded)) u →
      Later (StateT Memory (Dialogue Unit fun _ => Unit)) t u →
      ∃ w, Gives (e.decodeField topic (some encoded)) v (.ok (some value)) w := by
  intro h
  obtain ⟨w, hback⟩ := h unkeyed "orders" "encAesV1.note" "encAesV1.note" _ _ _ (Memory.empty, [])
    (gives_encryptionKey_unkeyed "orders") (gives_encodeField_unkeyed "orders" "encAesV1.note")
    (later_refl _ _)
  exact not_gives_decodeField_self (by decide) hback

end Engine

end TopicCipher
