import TopicCipher.KeyError
import TopicCipher.Topic.Template

/-!
# Topic rules

Rules say for each topic whether it is encrypted, where its key lies in the secret store, under
which name, and which team it belongs to.  A rule may speak for one topic, for all topics that
begin alike, or for all that nobody else speaks for, and it may leave out any of the four
properties.

Each property is looked up on its own among the rules that define it: first the rules for the
topic itself, then the rule for the longest beginning, then the default rule.  A rule that does
not define a property never stands in the way of one that does.
-/

namespace TopicCipher

/-- What is said about some topics. -/
structure TopicRule where
  isDefault : Bool
  encrypted : Option Bool
  topic : Option String
  beginning : Option String
  path : Option String
  template : Option String
  team : Option String
  keyName : Option String
  deriving DecidableEq, Repr

/-- Where a path comes from. -/
inductive PathSource where
  | literal (path : String)
  | template (template : String)
  deriving DecidableEq, Repr

/-- The name of the key in a secret when no rule says otherwise. -/
def defaultKeyName : String := "value"

namespace TopicRule

/-- A rule that says nothing about any topic. -/
def blank : TopicRule := ⟨false, none, none, none, none, none, none, none⟩

/-- A rule for one topic. -/
def forTopic (topic : String) : TopicRule := { blank with topic := some topic }

/-- A rule for all topics with the given beginning. -/
def forBeginning (beginning : String) : TopicRule := { blank with beginning := some beginning }

/-- The rule for all topics that no other rule speaks for. -/
def fallback : TopicRule := { blank with isDefault := true }

/-- Where the rule says that the key lies. -/
def pathSource (r : TopicRule) : Option PathSource :=
  match r.path, r.template with
  | some path, _ => some (.literal path)
  | none, some template => some (.template template)
  | none, none => none

/-- How a rule is called in messages. -/
def title (r : TopicRule) : String :=
  match r.topic, r.beginning with
  | some topic, _ => s!"\"{topic}\""
  | none, some beginning => s!"\"{beginning}*\""
  | none, none => "<default>"

/-- The fault of a rule that contradicts itself or speaks for no topic. -/
def fault? (r : TopicRule) : Option ConfigurationFault :=
  if r.path.isSome && r.template.isSome then some (.pathAndTemplate r.title)
  else if !r.isDefault && r.topic.isNone && r.beginning.isNone then some .ruleWithoutTopics
  else none

/-- The length of the rule's beginning, if the topic begins so. -/
def matchLength? (r : TopicRule) (topic : String) : Option Nat :=
  (r.beginning.filter fun b => b.toList.isPrefixOf topic.toList).map String.length

end TopicRule

namespace Rules

/-- The value with the greatest length, the earliest one among equals. -/
def longest : List (Nat × α) → Option (Nat × α)
  | [] => none
  | (n, a) :: rest =>
    match longest rest with
    | some (k, b) => if n < k then some (k, b) else some (n, a)
    | none => some (n, a)

/-- What the rules for the topic itself say. -/
def ofTopic (rules : List TopicRule) (topic : String) (property : TopicRule → Option α) :
    Option α :=
  (rules.filter (·.topic = some topic)).findSome? property

/-- What the rule for the longest beginning says. -/
def ofBeginning (rules : List TopicRule) (topic : String) (property : TopicRule → Option α) :
    Option α :=
  (longest (rules.filterMap fun r => do some (← r.matchLength? topic, ← property r))).map (·.2)

/-- What the default rule says. -/
def ofDefault (rules : List TopicRule) (property : TopicRule → Option α) : Option α :=
  (rules.filter (·.isDefault)).findSome? property

/-- What the rules say about a property of a topic. -/
def resolve (rules : List TopicRule) (topic : String) (property : TopicRule → Option α) :
    Option α :=
  ((ofTopic rules topic property).or (ofBeginning rules topic property)).or
    (ofDefault rules property)

end Rules

/-- A mapping for a single topic, or for all of them. -/
structure SingleTopic where
  topic : String
  path : String
  keyName : Option String
  deriving DecidableEq, Repr

/-- The name that speaks for every topic. -/
def everyTopic : String := "*"

/-- Holds of the topics that a mapping speaks for. -/
def SingleTopic.speaksFor (s : SingleTopic) (topic : String) : Bool :=
  s.topic == everyTopic || s.topic == topic

/-- Says for each topic where its key lies. -/
inductive TopicResolver where
  | single (mapping : SingleTopic)
  | multi (rules : List TopicRule)
  deriving DecidableEq, Repr

namespace TopicResolver

/-- A resolver of some rules.  There is at most one default rule, and every rule has to make
sense. -/
def ofRules (rules : List TopicRule) : Except ConfigurationFault TopicResolver :=
  let defaults := rules.countP (·.isDefault)
  if 1 < defaults then .error (.manyDefaultRules defaults)
  else
    match rules.findSome? TopicRule.fault? with
    | some fault => .error fault
    | none => .ok (.multi rules)

/-- The team of a topic. -/
def team : TopicResolver → String → Option String
  | .single _, _ => none
  | .multi rules, topic => Rules.resolve rules topic (·.team)

/-- The path of a template, for a topic of a team. -/
def render (template topic : String) (team : Option String) : Except ConfigurationFault String :=
  match Template.render? template topic team with
  | some path => .ok path
  | none => .error (.templateWithoutTeam template topic)

/-- Where the key of a topic lies. -/
def path (r : TopicResolver) (topic : String) : Except ConfigurationFault String :=
  match r with
  | .single mapping =>
    if mapping.speaksFor topic then render mapping.path topic none
    else .error (.foreignTopic topic)
  | .multi rules =>
    match Rules.resolve rules topic TopicRule.pathSource with
    | none => .error (.topicWithoutPath topic)
    | some (.literal path) => .ok path
    | some (.template template) => render template topic (r.team topic)

/-- The name of the key of a topic in its secret. -/
def keyName : TopicResolver → String → String
  | .single mapping, _ => mapping.keyName.getD defaultKeyName
  | .multi rules, topic => (Rules.resolve rules topic (·.keyName)).getD defaultKeyName

/-- Whether a topic is encrypted. -/
def isEncrypted : TopicResolver → String → Bool
  | .single mapping, topic => mapping.speaksFor topic
  | .multi rules, topic => (Rules.resolve rules topic (·.encrypted)).getD true

end TopicResolver

end TopicCipher
