import TopicCipher.CryptoError
import TopicCipher.Envelope.Basic
import TopicCipher.Json.Reader
import TopicCipher.Text.Blank

/-!
# Envelopes in message headers

A message that is encrypted as a whole carries what is needed to decrypt it in its headers.  Two
layouts exist.  The discrete layout has one header for the initialization vector, one for the key
version and one for the key attribute; it is the only one that is written.  The descriptor layout
keeps the vector and puts version and attribute into a JSON header.  When both are there, the
discrete version decides and the descriptor is not looked at.

Headers are read in order and the last of several equal ones counts, but a discrete version or
attribute that cannot be read is an error even when a later header would replace it.
-/

namespace TopicCipher.Headers

/-- The header of the initialization vector. -/
def ivHeader : String := "x-enc-iv"

/-- The header of the key version. -/
def versionHeader : String := "x-enc-key-version"

/-- The header of the key attribute. -/
def keyNameHeader : String := "x-enc-key-name"

/-- The header of the cipher descriptor. -/
def descriptorHeader : String := "x-enc-cipher"

/-- The headers of an envelope, none for plaintext. -/
def ofEnvelope (e : Envelope) : List (String × Bytes) :=
  match e.cipherIv? with
  | none => []
  | some iv =>
    (ivHeader, iv) :: (versionHeader, Bytes.ofText e.version.text) ::
      (e.keyName.map fun name => (keyNameHeader, Bytes.ofText name)).toList

/-! ## Reading -/

/-- What the headers said so far. -/
structure Found where
  iv : Option Bytes
  version : Option Version
  keyName : Option String
  descriptor : Option Bytes
  deriving DecidableEq, Repr

/-- Nothing was said yet. -/
def Found.nothing : Found := ⟨none, none, none, none⟩

/-- The text of a header's value. -/
def readText (header : String) (value : Bytes) : Except HeaderFault String :=
  match Bytes.toText? value with
  | some text => .ok text
  | none => .error (.notText header)

/-- The version in a header's value, which may have blanks around it. -/
def readVersion (value : Bytes) : Except HeaderFault Version := do
  let text ← readText versionHeader value
  match Version.read? (Text.trimChars text.toList) with
  | some v => .ok v
  | none => .error (.version versionHeader text)

/-- Takes one more header into account. -/
def Found.add (found : Found) (header : String × Bytes) : Except HeaderFault Found :=
  if header.1 = ivHeader then .ok { found with iv := some header.2 }
  else if header.1 = versionHeader then do
    let v ← readVersion header.2
    .ok { found with version := some v }
  else if header.1 = keyNameHeader then do
    let name ← readText keyNameHeader header.2
    .ok { found with keyName := some name }
  else if header.1 = descriptorHeader then .ok { found with descriptor := some header.2 }
  else .ok found

/-- A cipher descriptor: a version, as a number or as text, and a key attribute. -/
structure Descriptor where
  version : Option Version
  versionText : Option String
  name : Option String
  deriving DecidableEq, Repr

/-- The descriptor that a JSON value stands for. -/
def Descriptor.ofJson? (j : Json) : Option Descriptor :=
  match j.record? ["cipherVersion", "cipherVersionString", "cipherName"] 3 with
  | some [version, versionText, name] => do
    some ⟨← Json.optional Json.word32? version, ← Json.optional Json.text? versionText,
      ← Json.optional Json.text? name⟩
  | _ => none

/-- The descriptors in a header's value: a list of maps from attributes to descriptors. -/
def descriptors? (value : Bytes) : Option (List (List (String × Descriptor))) :=
  (Json.ofBytes? value).bind (Json.items? (Json.map? Descriptor.ofJson?))

/-- The version of a descriptor.  The number wins over the text. -/
def Descriptor.keyVersion (d : Descriptor) : Except HeaderFault Version :=
  match d.version, d.versionText with
  | some v, _ => .ok v
  | none, some text =>
    match Version.read? (Text.trimChars text.toList) with
    | some v => .ok v
    | none => .error (.descriptorVersion text)
  | none, none => .error .descriptorWithoutVersion

/-- The only descriptor in a header's value. -/
def readDescriptor (value : Bytes) : Except HeaderFault Descriptor :=
  match descriptors? value with
  | none => .error (.descriptorShape descriptorHeader)
  | some [[(_, d)]] => .ok d
  | some [_] => .error (.descriptorKeys descriptorHeader)
  | some list => .error (.descriptorCount descriptorHeader list.length)

/-- The version and the attribute of the key; none when no header names a version. -/
def Found.key (found : Found) : Except HeaderFault (Option (Version × Option String)) :=
  match found.version, found.descriptor with
  | some v, _ => .ok (some (v, found.keyName))
  | none, some value => do
    let d ← readDescriptor value
    let v ← d.keyVersion
    .ok (some (v, found.keyName.or d.name))
  | none, none => .ok none

/-- The envelope of a payload with what its headers said. -/
def Found.envelope (found : Found) (payload : Bytes) : Except HeaderFault Envelope := do
  match ← found.key, found.iv with
  | none, none => .ok (.plaintext payload)
  | none, some _ => .error (.ivWithoutVersion ivHeader)
  | some (v, _), none => .error (.versionWithoutIv v ivHeader)
  | some (v, keyName), some iv => .ok ⟨payload, some iv, v, keyName⟩

/-- The envelope of a payload with its headers. -/
def toEnvelope (payload : Bytes) (headers : List (String × Bytes)) :
    Except CryptoError Envelope :=
  (do
    let found ← headers.foldlM Found.add Found.nothing
    found.envelope payload : Except HeaderFault Envelope).mapError .headers

end TopicCipher.Headers
