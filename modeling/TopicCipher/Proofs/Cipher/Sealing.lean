import TopicCipher.Proofs.Results
import TopicCipher.TopicKey

/-!
# Sealing and opening

A sealed message opens to what was sealed, and to nothing else: the tag determines which messages
open, and the mask is its own inverse.  Both directions are one equivalence, because opening checks
exactly what sealing appends.

* `Gcm.decrypt?_eq_some_iff`: a message opens to a plaintext exactly if the plaintext seals to it.
* `TopicKey.encrypt_eq_ok_iff`, `TopicKey.decrypt_eq_ok_iff`: when keys seal and open.
* `TopicKey.decrypt_of_encrypt`: the round trip under a key.
* `TopicKey.opens_exactly_what_it_seals`: what a key opens, what it refuses, and how.
-/

namespace TopicCipher

namespace Gcm

variable {key iv plaintext sealed : Bytes}

theorem encrypt?_eq_some_iff :
    encrypt? key iv plaintext = some sealed ↔
      plaintext.length ≤ maxPlaintext ∧
        mask (.ofKey key) iv plaintext ++
          tag (.ofKey key) iv (mask (.ofKey key) iv plaintext) = sealed := by
  rw [encrypt?, Option.ite_none_right_eq_some, Option.some.injEq]

/-- A sealed message is longer than its plaintext by the tag. -/
theorem length_of_encrypt? (h : encrypt? key iv plaintext = some sealed) :
    sealed.length = plaintext.length + tagLength := by
  obtain ⟨-, rfl⟩ := encrypt?_eq_some_iff.mp h
  rw [List.length_append, length_mask, length_tag]

/-- The tag at the end of a sealed message is the tag of what stands before it. -/
theorem tag_of_encrypt? {body last : Bytes} (h : encrypt? key iv plaintext = some (body ++ last))
    (hlast : last.length = tagLength) : last = tag (.ofKey key) iv body := by
  obtain ⟨-, hsealed⟩ := encrypt?_eq_some_iff.mp h
  obtain ⟨rfl, rfl⟩ := List.append_inj' hsealed (by rw [length_tag, hlast])
  rfl

/-- **A message opens to a plaintext exactly if the plaintext seals to it.** -/
theorem decrypt?_eq_some_iff :
    decrypt? key iv sealed = some plaintext ↔ encrypt? key iv plaintext = some sealed := by
  constructor
  · intro h
    rw [decrypt?, Option.ite_none_right_eq_some] at h
    obtain ⟨⟨hlow, hhigh⟩, h⟩ := h
    rw [Option.ite_none_right_eq_some, Option.some.injEq] at h
    obtain ⟨htag, rfl⟩ := h
    rw [encrypt?_eq_some_iff, mask_mask, ← htag, length_mask, List.length_take]
    exact ⟨by omega, List.take_append_drop _ sealed⟩
  · intro h
    have hlength := length_of_encrypt? h
    obtain ⟨hmax, rfl⟩ := encrypt?_eq_some_iff.mp h
    have hcut : (mask (.ofKey key) iv plaintext ++
        tag (.ofKey key) iv (mask (.ofKey key) iv plaintext)).length - tagLength =
        (mask (.ofKey key) iv plaintext).length := by
      rw [hlength, length_mask, Nat.add_sub_cancel]
    rw [decrypt?, if_pos (by omega), hcut, List.take_left, List.drop_left, if_pos rfl, mask_mask]

end Gcm

namespace TopicKey

variable {key : TopicKey} {iv plaintext sealed : Bytes}

/-- Texts that are equal up to blanks are the same key. -/
theorem ofText_congr {text text' : String} (h : Text.trim text = Text.trim text') :
    ofText text = ofText text' := by
  rw [ofText, ofText, keyMaterial, keyMaterial, h]

/-- Only vectors of the right length pass. -/
theorem checkIv_eq_ok_iff {u : Unit} : checkIv iv = .ok u ↔ iv.length = Gcm.ivLength := by
  rw [checkIv]
  split <;> simp [*]

theorem encrypt_eq_ok_iff :
    key.encrypt iv plaintext = .ok sealed ↔
      iv.length = Gcm.ivLength ∧ Gcm.encrypt? key.bytes iv plaintext = some sealed := by
  simp only [encrypt, bind_eq_ok_iff, checkIv_eq_ok_iff, exists_const]
  cases Gcm.encrypt? key.bytes iv plaintext <;> simp

theorem decrypt_eq_ok_iff :
    key.decrypt iv sealed = .ok plaintext ↔
      iv.length = Gcm.ivLength ∧ Gcm.decrypt? key.bytes iv sealed = some plaintext := by
  simp only [decrypt, bind_eq_ok_iff, checkIv_eq_ok_iff, exists_const]
  cases Gcm.decrypt? key.bytes iv sealed <;> simp

/-- The vector of what a key sealed is not empty. -/
theorem iv_ne_nil_of_encrypt (h : key.encrypt iv plaintext = .ok sealed) : iv ≠ [] := by
  obtain ⟨hlength, -⟩ := encrypt_eq_ok_iff.mp h
  rintro rfl
  exact absurd hlength (by decide)

/-- **A message opens exactly to what seals to it.** -/
theorem decrypt_eq_ok_iff_encrypt :
    key.decrypt iv sealed = .ok plaintext ↔ key.encrypt iv plaintext = .ok sealed := by
  rw [decrypt_eq_ok_iff, encrypt_eq_ok_iff, Gcm.decrypt?_eq_some_iff]

/-- What a key sealed it opens again. -/
theorem decrypt_of_encrypt (h : key.encrypt iv plaintext = .ok sealed) :
    key.decrypt iv sealed = .ok plaintext :=
  decrypt_eq_ok_iff_encrypt.mpr h

/-- Every plaintext that is not too long can be sealed. -/
theorem exists_encrypt_eq_ok_iff :
    (∃ sealed, key.encrypt iv plaintext = .ok sealed) ↔
      iv.length = Gcm.ivLength ∧ plaintext.length ≤ Gcm.maxPlaintext := by
  simp only [encrypt_eq_ok_iff, Gcm.encrypt?_eq_some_iff, exists_and_left, exists_eq', and_true]

/-- What nothing seals to is refused. -/
theorem decrypt_eq_error (hiv : iv.length = Gcm.ivLength)
    (h : ∀ plaintext, key.encrypt iv plaintext ≠ .ok sealed) :
    key.decrypt iv sealed = .error .authentication := by
  have hnone : Gcm.decrypt? key.bytes iv sealed = none := by
    rw [Option.eq_none_iff_forall_ne_some]
    intro plaintext hopens
    exact h plaintext (decrypt_eq_ok_iff_encrypt.mp (decrypt_eq_ok_iff.mpr ⟨hiv, hopens⟩))
  have hchecked : checkIv iv = .ok () := checkIv_eq_ok_iff.mpr hiv
  rw [decrypt, hchecked, hnone]
  rfl

/-- A ciphertext has one tag. -/
theorem tag_unique {plaintext' body tag tag' : Bytes}
    (h : key.encrypt iv plaintext = .ok (body ++ tag))
    (h' : key.encrypt iv plaintext' = .ok (body ++ tag')) (htag : tag.length = Gcm.tagLength)
    (htag' : tag'.length = Gcm.tagLength) : tag' = tag := by
  rw [Gcm.tag_of_encrypt? (encrypt_eq_ok_iff.mp h).2 htag,
    Gcm.tag_of_encrypt? (encrypt_eq_ok_iff.mp h').2 htag']

/-! ## What a key opens -/

/-- **A key opens exactly what it seals.**  Sealing adds the tag and works for every plaintext that
is not too long.  Whatever else is presented under a vector of the right length is refused and gives
no plaintext, among it all that is shorter than a tag, and every sealed message with another tag. -/
theorem opens_exactly_what_it_seals (key : TopicKey) :
    (∀ iv sealed plaintext : Bytes, key.decrypt iv sealed = .ok plaintext ↔
      iv.length = 12 ∧ key.encrypt iv plaintext = .ok sealed) ∧
    (∀ iv plaintext sealed : Bytes, key.encrypt iv plaintext = .ok sealed →
      sealed.length = plaintext.length + 16) ∧
    (∀ iv plaintext : Bytes, iv.length = 12 → plaintext.length ≤ Gcm.maxPlaintext →
      ∃ sealed, key.encrypt iv plaintext = .ok sealed) ∧
    (∀ iv sealed : Bytes, iv.length = 12 →
      (∀ plaintext : Bytes, plaintext.length ≤ Gcm.maxPlaintext →
        key.encrypt iv plaintext ≠ .ok sealed) →
      key.decrypt iv sealed = .error .authentication) ∧
    (∀ iv sealed : Bytes, iv.length = 12 → sealed.length < 16 →
      key.decrypt iv sealed = .error .authentication) ∧
    ∀ iv plaintext body tag tag' : Bytes, key.encrypt iv plaintext = .ok (body ++ tag) →
      tag.length = 16 → tag'.length = 16 → tag' ≠ tag →
      key.decrypt iv (body ++ tag') = .error .authentication := by
  refine ⟨fun iv sealed plaintext => ?_, fun iv plaintext sealed h => ?_,
    fun iv plaintext hiv hlength => exists_encrypt_eq_ok_iff.mpr ⟨hiv, hlength⟩,
    fun iv sealed hiv h => ?_, fun iv sealed hiv hshort => ?_,
    fun iv plaintext body tag tag' h htag htag' hne => ?_⟩
  · rw [decrypt_eq_ok_iff_encrypt]
    exact ⟨fun h => ⟨(encrypt_eq_ok_iff.mp h).1, h⟩, And.right⟩
  · exact Gcm.length_of_encrypt? (encrypt_eq_ok_iff.mp h).2
  · refine decrypt_eq_error hiv fun plaintext hsealed => h plaintext ?_ hsealed
    exact (exists_encrypt_eq_ok_iff.mp ⟨sealed, hsealed⟩).2
  · refine decrypt_eq_error hiv fun plaintext hsealed => ?_
    have hlength : sealed.length = plaintext.length + 16 :=
      Gcm.length_of_encrypt? (encrypt_eq_ok_iff.mp hsealed).2
    omega
  · refine decrypt_eq_error (encrypt_eq_ok_iff.mp h).1 fun plaintext' hsealed => hne ?_
    exact tag_unique h hsealed htag htag'

/-- The key of the bytes from 0 to 31. -/
def greetingKey : TopicKey := ⟨(List.range 32).map UInt8.ofNat, rfl⟩

/-- The vector of the bytes from 0 to 11. -/
def greetingIv : Bytes := (List.range 12).map UInt8.ofNat

/-- The greeting opens; without its tag, or with all bytes of the tag changed, it does not. -/
theorem opens_greeting :
    ∃ body tag : Bytes, body.length = 12 ∧ tag.length = 16 ∧
      greetingKey.decrypt greetingIv (body ++ tag) = .ok (Bytes.ofText "Hello World!") ∧
        greetingKey.decrypt greetingIv body = .error .authentication ∧
          greetingKey.decrypt greetingIv (body ++ tag.map (· + 1)) = .error .authentication := by
  obtain ⟨hopens, hlength, hseals, -, hshort, hother⟩ := opens_exactly_what_it_seals greetingKey
  have htext : (Bytes.ofText "Hello World!").length = 12 := by decide +kernel
  obtain ⟨sealed, hsealed⟩ := hseals greetingIv (Bytes.ofText "Hello World!") rfl
    (by rw [htext]; decide)
  have hsum : sealed.length = 28 := by rw [hlength _ _ _ hsealed, htext]
  have hbody : (sealed.take 12).length = 12 := by rw [List.length_take, hsum]; rfl
  have htag : (sealed.drop 12).length = 16 := by rw [List.length_drop, hsum]
  refine ⟨sealed.take 12, sealed.drop 12, hbody, htag, ?_,
    hshort _ _ rfl (by rw [hbody]; decide), ?_⟩
  · rw [List.take_append_drop]
    exact (hopens _ _ _).mpr ⟨rfl, hsealed⟩
  · rw [← List.take_append_drop 12 sealed] at hsealed
    refine hother _ _ _ _ _ hsealed htag (by rw [List.length_map, htag]) fun hsame => ?_
    obtain ⟨first, rest, hcons⟩ := List.exists_cons_of_length_eq_add_one htag
    rw [hcons, List.map_cons] at hsame
    exact absurd (List.cons.inj hsame).1 (by simp)

end TopicKey

end TopicCipher
