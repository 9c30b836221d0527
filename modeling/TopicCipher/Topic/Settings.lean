import TopicCipher.Json.Reader
import TopicCipher.Topic.Rules

/-!
# Topic rules in settings

The settings of a resolver are an object with one field, `single` or `multi`.
-/

namespace TopicCipher

/-- The settings of a resolver. -/
inductive ResolverSettings where
  | single (mapping : SingleTopic)
  | multi (rules : List TopicRule)
  deriving DecidableEq, Repr

/-- The rule that a JSON value stands for.  All of its fields may be missing. -/
def TopicRule.ofJson? (j : Json) : Option TopicRule :=
  match j.record? ["isDefault", "encryptionEnabled", "topicName", "topicPrefix", "path",
      "pathTemplate", "teamName", "keyAttributeName"] 0 with
  | some [isDefault, encrypted, topic, beginning, path, template, team, keyName] => do
    some
      { isDefault := ← Json.withDefault false Json.bool? isDefault
        encrypted := ← Json.optional Json.bool? encrypted
        topic := ← Json.optional Json.text? topic
        beginning := ← Json.optional Json.text? beginning
        path := ← Json.optional Json.text? path
        template := ← Json.optional Json.text? template
        team := ← Json.optional Json.text? team
        keyName := ← Json.optional Json.text? keyName }
  | _ => none

/-- The mapping that a JSON value stands for.  Only the name of the key may be missing. -/
def SingleTopic.ofJson? (j : Json) : Option SingleTopic :=
  match j.record? ["topic", "path", "keyAttributeName"] 0 with
  | some [topic, path, keyName] => do
    some
      { topic := ← Json.required Json.text? topic
        path := ← Json.required Json.text? path
        keyName := ← Json.optional Json.text? keyName }
  | _ => none

namespace ResolverSettings

/-- The settings that a JSON value stands for. -/
def ofJson? : Json → Option ResolverSettings
  | .object [(some "single", value)] => (SingleTopic.ofJson? value).map .single
  | .object [(some "multi", value)] => do
    let [rules] ← value.record? ["rules"] 0 | none
    (Json.required (Json.items? TopicRule.ofJson?) rules).map .multi
  | _ => none

/-- The settings in a text. -/
def ofText? (text : String) : Option ResolverSettings := (Json.ofText? text).bind ofJson?

/-- The resolver with the given settings. -/
def resolver : ResolverSettings → Except ConfigurationFault TopicResolver
  | .single mapping => .ok (.single mapping)
  | .multi rules => TopicResolver.ofRules rules

end ResolverSettings

end TopicCipher
