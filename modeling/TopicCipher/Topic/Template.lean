/-!
# Templates of secret paths

A template is a path in which placeholders stand for the topic and for its team.  Occurrences of
a placeholder are replaced from the left and do not overlap.  The team goes in first, and the
topic goes into the result, so a team that spells the topic's placeholder is filled in as well.
-/

namespace TopicCipher.Template

/-- The placeholder of the topic. -/
def topicPlaceholder : String := "%TOPICNAME%"

/-- The placeholder of the team. -/
def teamPlaceholder : String := "%TEAMNAME%"

/-- Holds if the pattern occurs somewhere. -/
def occurs (pattern : List Char) : List Char → Bool
  | [] => pattern.isEmpty
  | c :: cs => pattern.isPrefixOf (c :: cs) || occurs pattern cs

/-- Replaces the occurrences of a pattern after the first `skip` characters, which belong to an
occurrence that is already replaced. -/
def replaceFrom (pattern value : List Char) : (skip : Nat) → List Char → List Char
  | _, [] => []
  | skip + 1, _ :: cs => replaceFrom pattern value skip cs
  | 0, c :: cs =>
    if pattern.isPrefixOf (c :: cs) then value ++ replaceFrom pattern value (pattern.length - 1) cs
    else c :: replaceFrom pattern value 0 cs

/-- Replaces the occurrences of a nonempty pattern from the left. -/
def replace (pattern value text : List Char) : List Char := replaceFrom pattern value 0 text

/-- The path of a topic; none when the template asks for a team and there is none. -/
def render? (template topic : String) (team : Option String) : Option String :=
  let fillTopic (path : List Char) :=
    String.ofList (replace topicPlaceholder.toList topic.toList path)
  if occurs teamPlaceholder.toList template.toList then
    team.map fun team =>
      fillTopic (replace teamPlaceholder.toList team.toList template.toList)
  else some (fillTopic template.toList)

end TopicCipher.Template
