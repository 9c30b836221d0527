import TopicCipher.Json.Numeral

/-!
# JSON documents

Settings, cipher descriptors and answers of the secret store are JSON.  A document is kept as it
was written: fields stay in order and may repeat, a number keeps its digits, and a string literal
that spells no text (an unpaired surrogate, or bytes that are not UTF-8) is still a string.  Such
faults only count when the value is used, so `isData` and the record readers look for them and a
skipped value may contain any of them.
-/

namespace TopicCipher

/-- A JSON document.  String literals that spell no text are `none`. -/
inductive Json where
  | null
  | bool (value : Bool)
  | number (value : Json.Numeral)
  | string (text : Option String)
  | array (items : List Json)
  | object (fields : List (Option String × Json))
  deriving Repr

namespace Json

/-- Holds of a value that can be kept as data: every literal spells a text, every number is
finite, and arrays and objects nest at most `depth` deep. -/
def isData : (depth : Nat) → Json → Bool
  | _, .null => true
  | _, .bool _ => true
  | _, .number n => n.isFinite
  | _, .string text => text.isSome
  | 0, .array _ => false
  | depth + 1, .array items => items.all (isData depth)
  | 0, .object _ => false
  | depth + 1, .object fields => fields.all fun (name, value) => name.isSome && isData depth value

/-! ## Scalars -/

/-- The text of a string. -/
def text? : Json → Option String
  | .string text => text
  | _ => none

/-- A truth value. -/
def bool? : Json → Option Bool
  | .bool value => some value
  | _ => none

/-- A natural number below a bound. -/
def below? (bound : Nat) : Json → Option Nat
  | .number n => n.toNat?.filter (· < bound)
  | _ => none

/-- A 32-bit number. -/
def word32? (j : Json) : Option UInt32 := (j.below? UInt32.size).map UInt32.ofNat

/-- A 64-bit number, as a natural number. -/
def word64? (j : Json) : Option Nat := j.below? UInt64.size

/-! ## Records

A record is an object with the given fields or an array of them in order.  Fields of an object
that the record does not know are skipped, and a known field may not repeat.
-/

/-- The value of the only field with the given name: `some none` when there is no such field, and
`none` when there are several. -/
def field? (fields : List (Option String × Json)) (name : String) : Option (Option Json) :=
  match fields.filter (·.1 = some name) with
  | [] => some none
  | [(_, value)] => some (some value)
  | _ => none

/-- The values of a record's fields, in the order of the names.  Written as an array, at least
the first `minimum` fields must be there. -/
def record? (names : List String) (minimum : Nat) : Json → Option (List (Option Json))
  | .array items =>
    if minimum ≤ items.length ∧ items.length ≤ names.length then
      some (items.map some ++ List.replicate (names.length - items.length) none)
    else none
  | .object fields =>
    if fields.all (·.1.isSome) then names.mapM (field? fields) else none
  | _ => none

/-- A field that must be there. -/
def required (read : Json → Option α) (field : Option Json) : Option α :=
  field.bind read

/-- A field with a default. -/
def withDefault (default : α) (read : Json → Option α) : Option Json → Option α
  | none => some default
  | some value => read value

/-- A field that may be missing or `null`. -/
def optional (read : Json → Option α) : Option Json → Option (Option α)
  | none => some none
  | some .null => some none
  | some value => (read value).map some

/-! ## Maps -/

/-- The pairs with the last value of each name. -/
def lastOfEach (pairs : List (String × α)) : List (String × α) :=
  pairs.foldl (fun map pair => map.filter (·.1 ≠ pair.1) ++ [pair]) []

/-- An object with free names as a map, in which the last of several equal names counts.  Every
value has to be readable, also one that does not count. -/
def map? (read : Json → Option α) : Json → Option (List (String × α))
  | .object fields => do
    let pairs ← fields.mapM fun (name, value) => do some (← name, ← read value)
    some (lastOfEach pairs)
  | _ => none

/-- The items of an array. -/
def items? (read : Json → Option α) : Json → Option (List α)
  | .array items => items.mapM read
  | _ => none

end Json

end TopicCipher
