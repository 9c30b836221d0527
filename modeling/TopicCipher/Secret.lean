import TopicCipher.KeySource
import TopicCipher.Text.Blank
import TopicCipher.Time.Instant

/-!
# Secrets

A secret is a map of named texts with a version.  A key is one of these texts.  `currentKey` is
the key of a secret that was read without asking for a version, and `pinnedKey` the key of one
that was read at a given version; the store is not trusted to have returned that version.
-/

namespace TopicCipher

/-- When a version of a secret came into being. -/
structure SecretMetadata where
  version : Version
  created : Instant
  deriving DecidableEq

/-- Named texts, with metadata if the store keeps any. -/
structure Secret where
  attributes : List (String × String)
  metadata : Option SecretMetadata
  deriving DecidableEq

namespace Secret

/-- The key with the given name, which must not be blank. -/
def material (s : Secret) (path keyName : String) : Except AnswerFault String :=
  match (s.attributes.lookup keyName).filter fun text => !Text.isBlankText text with
  | some text => .ok text
  | none => .error (.noKey path keyName)

/-- The key of the current version of a secret. -/
def currentKey (s : Secret) (path keyName : String) : Except AnswerFault KeyVersion := do
  let some metadata := s.metadata | .error (.noVersion path)
  if metadata.version = 0 then .error (.versionZero path)
  let material ← s.material path keyName
  .ok ⟨metadata.version, some keyName, material⟩

/-- The material of the key of the given version of a secret. -/
def pinnedKey (s : Secret) (path keyName : String) (version : Version) :
    Except AnswerFault String := do
  if let some metadata := s.metadata then
    if metadata.version ≠ version then .error (.otherVersion version path metadata.version)
  s.material path keyName

end Secret

end TopicCipher
