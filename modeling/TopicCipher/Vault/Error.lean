import TopicCipher.KeyError

/-!
# Failures of the secret store

Whoever asks for keys does not need to know how a store fails, only what kind of failure it is:
`VaultError.toKeyError` keeps wrong settings and senseless answers apart and makes an outage of
everything else.
-/

namespace TopicCipher

/-- A failure in the exchange with the secret store. -/
inductive VaultError where
  | configuration (fault : ConfigurationFault)
  | login (reason : String)
  | transport (reason : String)
  | status (code : Nat) (path : String)
  | malformed (fault : AnswerFault)
  deriving DecidableEq, Repr

namespace VaultError

/-- The wording of a failure. -/
def message : VaultError → String
  | .configuration fault => s!"Vault configuration error: {fault.message}"
  | .login reason => s!"Vault login failed: {reason}"
  | .transport reason => s!"Vault request failed: {reason}"
  | .status code path => s!"Vault returned status {code} for {path}"
  | .malformed fault => s!"Malformed Vault response: {fault.message}"

/-- The failure of a key lookup. -/
def toKeyError : VaultError → KeyError
  | .configuration fault => .configuration fault
  | .malformed fault => .format fault
  | other => .store other.message

end VaultError

end TopicCipher
