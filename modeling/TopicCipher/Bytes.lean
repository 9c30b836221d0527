/-!
# Byte strings

Payloads, initialization vectors and key material are lists of bytes.  Text and bytes meet in
one place only: `Bytes.ofText` writes text as UTF-8, and `Bytes.toText?` reads it back.

* `toText?_ofText`: what was written reads back.
* `ofText_of_toText?`: only bytes that were written can be read, so reading loses nothing.
-/

namespace TopicCipher

/-- A finite string of bytes. -/
abbrev Bytes := List UInt8

namespace Bytes

/-- The UTF-8 form of a text. -/
def ofText (text : String) : Bytes := text.toUTF8.data.toList

/-- The text whose UTF-8 form these bytes are, if there is one. -/
def toText? (bytes : Bytes) : Option String := String.fromUTF8? ⟨bytes.toArray⟩

theorem toText?_ofText (text : String) : toText? (ofText text) = some text := by
  have h : (⟨(ofText text).toArray⟩ : ByteArray) = text.toUTF8 := by simp [ofText]
  rw [toText?, h]
  simp only [String.fromUTF8?, String.toUTF8_eq_toByteArray, dif_pos text.isValidUTF8]
  rfl

theorem ofText_of_toText? {bytes : Bytes} {text : String} (h : toText? bytes = some text) :
    ofText text = bytes := by
  rw [toText?, String.fromUTF8?] at h
  split at h
  · obtain rfl := Option.some.inj h
    simp [ofText, String.fromUTF8]
  · simp at h

end Bytes

end TopicCipher
