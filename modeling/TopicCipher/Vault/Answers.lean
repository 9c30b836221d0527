import TopicCipher.Json.Reader
import TopicCipher.Secret
import TopicCipher.Time.Timestamp
import TopicCipher.Vault.Error

/-!
# Answers of the secret store

The store answers in JSON.  A secret comes with the attributes and the metadata of its version;
attributes that are no texts are left out.  A login comes with a token and the time that it
lasts.  Fields that the answer is not read for are skipped.
-/

namespace TopicCipher.Vault

/-- What a login grants: a token, how long it lasts (zero for without end), and whether it could
be renewed. -/
structure Grant where
  token : String
  lease : Span
  renewable : Bool
  deriving DecidableEq

/-- How deep arrays and objects may nest in an attribute: the whole answer may nest 127 deep, and
attributes lie three levels down. -/
def attributeDepth : Nat := 124

/-- An attribute value, if it can be kept. -/
def readAttribute? (j : Json) : Option Json := if j.isData attributeDepth then some j else none

/-- The metadata that a JSON value stands for; the timestamp may have the relaxed form. -/
def readMetadata? (j : Json) : Option SecretMetadata :=
  match j.record? ["version", "created_time"] 0 with
  | some [version, created] => do
    let version ← Json.required Json.word32? version
    let created ← Json.required Json.text? created
    some ⟨version, ← Timestamp.readRelaxed? created.toList⟩
  | _ => none

/-- The attributes that are texts. -/
def textAttributes (attributes : List (String × Json)) : List (String × String) :=
  attributes.filterMap fun (name, value) => value.text?.map (name, ·)

/-- The secret that the inner part of an answer stands for. -/
def readSecretData? (j : Json) : Option Secret :=
  match j.record? ["data", "metadata"] 0 with
  | some [attributes, metadata] => do
    let attributes ← Json.optional (Json.map? readAttribute?) attributes
    let metadata ← Json.optional readMetadata? metadata
    some ⟨textAttributes (attributes.getD []), metadata⟩
  | _ => none

/-- The secret in the body of an answer. -/
def readSecret (body : String) : Except VaultError Secret :=
  match (do
    let j ← Json.ofText? body
    let [inner] ← j.record? ["data"] 0 | none
    Json.required readSecretData? inner : Option Secret) with
  | some secret => .ok secret
  | none => .error (.malformed .readBody)

/-- The grant that the inner part of an answer stands for. -/
def readGrantData? (j : Json) : Option Grant :=
  match j.record? ["client_token", "lease_duration", "renewable"] 0 with
  | some [token, lease, renewable] => do
    let token ← Json.required Json.text? token
    let lease ← Json.withDefault 0 Json.word64? lease
    let renewable ← Json.withDefault false Json.bool? renewable
    some ⟨token, .ofSeconds lease, renewable⟩
  | _ => none

/-- The grant in the body of an answer. -/
def readGrant (body : String) : Except VaultError Grant :=
  match (do
    let j ← Json.ofText? body
    let [inner] ← j.record? ["auth"] 0 | none
    Json.required readGrantData? inner : Option Grant) with
  | some grant => if grant.token.isEmpty then .error (.malformed .emptyToken) else .ok grant
  | none => .error (.malformed .loginBody)

end TopicCipher.Vault
