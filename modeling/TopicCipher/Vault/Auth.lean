import TopicCipher.Json.Reader
import TopicCipher.Text.Blank
import TopicCipher.Vault.Error

/-!
# Credentials

A connection is authenticated by a fixed token, or by a role whose credentials are exchanged for
a token that lasts for a while.  Settings name exactly one of the two; blank settings count as
missing.
-/

namespace TopicCipher.Vault

/-- The credentials as they are configured. -/
structure AuthSettings where
  token : Option String
  roleId : Option String
  secretId : Option String
  deriving DecidableEq, Repr

/-- How a connection is authenticated. -/
inductive Auth where
  | token (token : String)
  | role (roleId secretId : String)
  deriving DecidableEq, Repr

namespace AuthSettings

/-- The settings of a fixed token. -/
def ofToken (token : String) : AuthSettings := ⟨some token, none, none⟩

/-- The settings of a role. -/
def ofRole (roleId secretId : String) : AuthSettings := ⟨none, some roleId, some secretId⟩

/-- The settings that a JSON value stands for. -/
def ofJson? (j : Json) : Option AuthSettings :=
  match j.record? ["token", "roleId", "secretId"] 0 with
  | some [token, roleId, secretId] => do
    some ⟨← Json.optional Json.text? token, ← Json.optional Json.text? roleId,
      ← Json.optional Json.text? secretId⟩
  | _ => none

/-- The settings in a text. -/
def ofText? (text : String) : Option AuthSettings := (Json.ofText? text).bind ofJson?

/-- A setting that is not blank. -/
def filled (setting : Option String) : Option String :=
  setting.filter fun text => !Text.isBlankText text

/-- The credentials that the settings name. -/
def resolve (s : AuthSettings) : Except ConfigurationFault Auth :=
  match filled s.token, filled s.roleId, filled s.secretId with
  | some token, none, none => .ok (.token token)
  | none, some roleId, some secretId => .ok (.role roleId secretId)
  | some _, _, _ => .error .tokenAndRole
  | none, none, none => .error .noCredentials
  | none, _, _ => .error .halfRole

end AuthSettings

end TopicCipher.Vault
