import TopicCipher.KeyCache.Entry
import TopicCipher.Time.Timestamp

/-!
# The text of the key cache

The cache is one text.  After a header line, a topic line names a topic and the entry lines below
it hold the keys of that topic: version, expiry, key name and material, between tabs.  Entries
are written in their order, so the text depends on the set of entries only.  Entries that would
break the lines are left out.

A cache may be shared, edited or damaged, so reading never fails: each line is a topic line, an
entry line or neither, on its own, and a line that is neither is skipped.  A text without the
header holds no entries.
-/

namespace TopicCipher.KeyCache

/-- The header line. -/
def header : String := "topicseal-key-cache v1"

/-- The first word of a topic line. -/
def topicWord : String := "topic"

/-- The character between the parts of a line. -/
def separator : Char := '\t'

/-! ## Writing -/

/-- Holds of characters that would break a line or its parts. -/
def breaksLine (c : Char) : Bool := c == '\t' || c == '\n' || c == '\r'

/-- Holds of texts that can be part of a line. -/
def fitsLine (text : String) : Bool := !text.toList.any breaksLine

/-- Holds of entries that can be written. -/
def isWritable (e : CacheEntry) : Bool :=
  !e.topic.isEmpty && fitsLine e.topic && e.key.keyName.all fitsLine &&
    !e.key.material.isEmpty && fitsLine e.key.material

/-- The line of a topic. -/
def topicLine (topic : String) : List Char := topicWord.toList ++ separator :: topic.toList

/-- The line of an entry. -/
def entryLine (e : CacheEntry) : List Char :=
  [separator].intercalate
    [e.key.version.digits, e.expiresAt.elim [] Timestamp.chars, (e.key.keyName.getD "").toList,
      e.key.material.toList]

/-- The lines of some entries, with a topic line wherever the topic changes. -/
def entryLines : (current : Option String) → List CacheEntry → List (List Char)
  | _, [] => []
  | current, e :: rest =>
    if current = some e.topic then entryLine e :: entryLines current rest
    else topicLine e.topic :: entryLine e :: entryLines (some e.topic) rest

/-- The entries that can be written, in their order. -/
def arrange (entries : List CacheEntry) : List CacheEntry :=
  (entries.mergeSort fun a b => (a.order b).isLE).filter isWritable

/-- The text of some lines. -/
def ofLines (lines : List (List Char)) : String :=
  String.ofList (lines.flatMap (· ++ ['\n']))

/-- The text of a cache. -/
def serialize (entries : List CacheEntry) : String :=
  ofLines (header.toList :: entryLines none (arrange entries))

/-- The text of a cache without entries. -/
def empty : String := ofLines [header.toList]

/-! ## Reading -/

/-- A line without the carriage return that may precede its line feed. -/
def dropReturn (line : List Char) : List Char :=
  if line.getLast? = some '\r' then line.dropLast else line

/-- Closes the pieces between line feeds: the last one is a line only if it is not empty, and
only the others have lost a line feed. -/
def closeLines : List (List Char) → List (List Char)
  | [] => []
  | [last] => if last = [] then [] else [last]
  | line :: rest => dropReturn line :: closeLines rest

/-- The lines of a text. -/
def lines (text : List Char) : List (List Char) := closeLines (text.splitOn '\n')

/-- What a line says. -/
inductive Line where
  /-- The entries that follow belong to a topic, or to none. -/
  | topic (name : Option String)
  | entry (key : KeyVersion) (expiresAt : Option Instant)
  | unreadable
  deriving DecidableEq

/-- An expiry, which an empty text leaves out. -/
def readExpiry? : List Char → Option (Option Instant)
  | [] => some none
  | cs => (Timestamp.read? cs).map some

/-- A text that stands for none when it is empty. -/
def nonempty? (cs : List Char) : Option String :=
  if cs = [] then none else some (String.ofList cs)

/-- The entry of four parts of a line. -/
def entryOf? (version expiry keyName material : List Char) : Option Line := do
  let v ← Version.read? version
  if v = 0 then none
  let expiresAt ← readExpiry? expiry
  let material ← nonempty? material
  some (.entry ⟨v, nonempty? keyName, material⟩ expiresAt)

/-- Reads a line.  Carriage returns at its end do not count. -/
def Line.ofChars (line : List Char) : Line :=
  match (Text.dropEndWhile (· = '\r') line).splitOn separator with
  | [word, name] => if word = topicWord.toList then .topic (nonempty? name) else .unreadable
  | [version, expiry, keyName, material] =>
    (entryOf? version expiry keyName material).getD .unreadable
  | _ => .unreadable

/-- The entries of some lines below a topic line. -/
def entriesBelow : (topic : Option String) → List Line → List CacheEntry
  | _, [] => []
  | _, .topic name :: rest => entriesBelow name rest
  | some topic, .entry key expiresAt :: rest =>
    ⟨topic, key, expiresAt⟩ :: entriesBelow (some topic) rest
  | topic, _ :: rest => entriesBelow topic rest

/-- The entries of a text. -/
def parse (text : String) : List CacheEntry :=
  match (lines text.toList).filter fun line => !line.all Text.isBlank with
  | [] => []
  | first :: rest =>
    if Text.dropEndWhile Text.isBlank first = header.toList then
      entriesBelow none (rest.map Line.ofChars)
    else []

end TopicCipher.KeyCache
