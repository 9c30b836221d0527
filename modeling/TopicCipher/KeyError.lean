import TopicCipher.CryptoError

/-!
# Failures of key lookups

A lookup fails because the configuration is wrong, because the secret store answers in a way that
makes no sense, because it does not answer, because the key cache contradicts itself, or because
of a cryptographic failure on the way.  Only a store that does not answer is an outage, and only
an outage may be bridged with an old key: `KeyError.isOutage` tells it apart.
-/

namespace TopicCipher

/-- What is wrong with the configuration. -/
inductive ConfigurationFault where
  | manyDefaultRules (count : Nat)
  | pathAndTemplate (rule : String)
  | ruleWithoutTopics
  | foreignTopic (topic : String)
  | topicWithoutPath (topic : String)
  | templateWithoutTeam (template topic : String)
  | tokenAndRole
  | noCredentials
  | halfRole
  | noAddress
  | other (text : String)
  deriving DecidableEq, Repr

/-- What is wrong with an answer of the secret store. -/
inductive AnswerFault where
  | noVersion (path : String)
  | versionZero (path : String)
  | noKey (path keyName : String)
  | otherVersion (asked : Version) (path : String) (got : Version)
  | readBody
  | loginBody
  | emptyToken
  | other (text : String)
  deriving DecidableEq, Repr

/-- A failure of a key lookup. -/
inductive KeyError where
  | configuration (fault : ConfigurationFault)
  | format (fault : AnswerFault)
  | store (reason : String)
  | ambiguity (topic : String) (candidates : Nat)
  | crypto (error : CryptoError)
  deriving DecidableEq, Repr

/-- The wording of a fault in the configuration. -/
def ConfigurationFault.message : ConfigurationFault → String
  | .manyDefaultRules count => s!"{count} default topic rules configured, at most one allowed"
  | .pathAndTemplate rule => s!"topic rule {rule} sets both path and pathTemplate"
  | .ruleWithoutTopics => "non-default topic rule needs a topicName or topicPrefix"
  | .foreignTopic topic => s!"no secret path configured for topic \"{topic}\""
  | .topicWithoutPath topic =>
    s!"no topic rule supplies a path for \"{topic}\" and no default rule exists"
  | .templateWithoutTeam template topic =>
    s!"path template \"{template}\" needs a team name but none is configured for \"{topic}\""
  | .tokenAndRole => "both a token and app-role credentials are configured"
  | .noCredentials => "no secret store credentials configured"
  | .halfRole => "app-role authentication needs both roleId and secretId"
  | .noAddress => "secret store address is empty"
  | .other text => text

/-- The wording of a fault in an answer of the secret store. -/
def AnswerFault.message : AnswerFault → String
  | .noVersion path => s!"secret at \"{path}\" has no version metadata"
  | .versionZero path => s!"secret at \"{path}\" reports invalid version 0"
  | .noKey path keyName => s!"secret at \"{path}\" has no key attribute \"{keyName}\""
  | .otherVersion asked path got =>
    s!"asked for version {asked.text} of \"{path}\" but the store returned version {got.text}"
  | .readBody => "failed to decode read response: not a secret"
  | .loginBody => "failed to decode login response: not a grant"
  | .emptyToken => "login response carries an empty client token"
  | .other text => text

namespace KeyError

/-- The wording of a failure. -/
def message : KeyError → String
  | .configuration fault => s!"Configuration error: {fault.message}"
  | .format fault => s!"Format error: {fault.message}"
  | .store reason => s!"Secret store error: {reason}"
  | .ambiguity topic candidates =>
    s!"Ambiguous key cache for topic \"{topic}\": {candidates} entries match; " ++
      "clear the second-level cache"
  | .crypto error => s!"Crypto error: {error.message}"

/-- Holds of failures of the secret store itself. -/
def isOutage : KeyError → Bool
  | .store _ => true
  | _ => false

@[simp] theorem isOutage_store (reason : String) : (store reason).isOutage = true := rfl

end KeyError

end TopicCipher
