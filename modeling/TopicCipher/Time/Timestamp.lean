import TopicCipher.Text.Blank
import TopicCipher.Time.Calendar
import TopicCipher.Time.Instant

/-!
# Timestamps

A timestamp is the text of an instant in the format of RFC 3339: a date, the letter `T`, a time
of day with an optional fraction, and an offset.  Timestamps are written in UTC with the fewest
of 0, 3, 6 or 9 fraction digits that are exact.  A leap second is written as second `60`.

Any offset and any number of fraction digits can be read, digits beyond the ninth are dropped, and
a space or small letters may stand in the place of `T` and `Z`.  Years have four digits in what is
read; years outside `0` to `9999` are written with a sign and cannot be read again.

Timestamps from elsewhere are read in a relaxed form (`readRelaxed?`).  There, blanks may stand
before any part, numbers need not be padded, years may have a sign and then any number of digits,
the colon of an offset may be missing, and UTC may be called by its name.
-/

namespace TopicCipher.Timestamp

/-! ## Writing -/

/-- The decimal digits of a number, with zeros in front up to a width. -/
def paddedDigits (width n : Nat) : List Char :=
  let digits := Nat.toDigits 10 n
  List.replicate (width - digits.length) '0' ++ digits

/-- The digits of a year; years that do not have four digits get a sign. -/
def yearDigits (year : Int) : List Char :=
  if year < 0 then '-' :: paddedDigits 4 year.natAbs
  else if 9999 < year then '+' :: paddedDigits 4 year.natAbs
  else paddedDigits 4 year.natAbs

/-- The fraction of a second, with the fewest of 0, 3, 6 or 9 digits. -/
def fractionChars (nano : Nat) : List Char :=
  if nano = 0 then []
  else if nano % 1000000 = 0 then '.' :: paddedDigits 3 (nano / 1000000)
  else if nano % 1000 = 0 then '.' :: paddedDigits 6 (nano / 1000)
  else '.' :: paddedDigits 9 nano

/-- The date of a day. -/
def dateChars (d : Calendar.Date) : List Char :=
  yearDigits d.year ++ '-' :: paddedDigits 2 d.month ++ '-' :: paddedDigits 2 d.dayOfMonth

/-- The time of day; `second` counts from midnight, and `nano` reaches into a leap second. -/
def clockChars (second nano : Nat) : List Char :=
  paddedDigits 2 (second / 3600) ++ ':' :: paddedDigits 2 (second / 60 % 60) ++
    ':' :: paddedDigits 2 (second % 60 + nano / nanosPerSecond) ++
    fractionChars (nano % nanosPerSecond)

/-- The timestamp of an instant. -/
def chars (t : Instant) : List Char :=
  dateChars (.ofDay (t.second / 86400 + Calendar.unixEpoch)) ++
    'T' :: clockChars (t.second % 86400).toNat t.nano ++ ['Z']

/-- The timestamp of an instant. -/
def text (t : Instant) : String := String.ofList (chars t)

/-! ## Reading -/

/-- Reads exactly so many decimal digits. -/
def number? (width : Nat) (cs : List Char) : Option (Nat × List Char) :=
  let digits := cs.take width
  if digits.length = width ∧ digits.all Char.isDigit then
    some (Nat.ofDigitChars 10 digits 0, cs.drop width)
  else none

/-- Reads at least one and at most so many decimal digits. -/
def shortNumber? (width : Nat) (cs : List Char) : Option (Nat × List Char) :=
  match (cs.take width).takeWhile Char.isDigit with
  | [] => none
  | digits => some (Nat.ofDigitChars 10 digits 0, cs.drop digits.length)

/-- Reads one of some characters. -/
def oneOf? (choices : List Char) : List Char → Option (List Char)
  | c :: rest => if c ∈ choices then some rest else none
  | [] => none

/-- Reads the fraction of a second, in nanoseconds. -/
def fraction? : List Char → Option (Nat × List Char)
  | '.' :: cs =>
    match cs.takeWhile Char.isDigit with
    | [] => none
    | digits =>
      some (Nat.ofDigitChars 10 ((digits ++ List.replicate 9 '0').take 9) 0,
        cs.dropWhile Char.isDigit)
  | cs => some (0, cs)

/-- How the parts of a timestamp are read. -/
structure Format where
  /-- Drops what may stand before a part. -/
  gap : List Char → List Char
  year? : List Char → Option (Int × List Char)
  /-- Reads a number of so many digits. -/
  number? (width : Nat) : List Char → Option (Nat × List Char)
  /-- Reads what stands for UTC in the place of an offset. -/
  utc? : List Char → Option (List Char)
  /-- Reads what stands between the hours and the minutes of an offset. -/
  colon? : List Char → Option (List Char)

namespace Format

/-- Reads a date. -/
def date? (f : Format) (cs : List Char) : Option (Calendar.Date × List Char) := do
  let (year, cs) ← f.year? (f.gap cs)
  let cs ← oneOf? ['-'] (f.gap cs)
  let (month, cs) ← f.number? 2 (f.gap cs)
  let cs ← oneOf? ['-'] (f.gap cs)
  let (dayOfMonth, cs) ← f.number? 2 (f.gap cs)
  let date : Calendar.Date := ⟨year, month, dayOfMonth⟩
  if date.exists? then some (date, cs) else none

/-- Reads a time of day: the seconds since midnight and the nanoseconds.  Second `60` is the leap
second at the end of its minute. -/
def clock? (f : Format) (cs : List Char) : Option ((Nat × Nat) × List Char) := do
  let (hour, cs) ← f.number? 2 (f.gap cs)
  let cs ← oneOf? [':'] (f.gap cs)
  let (minute, cs) ← f.number? 2 (f.gap cs)
  let cs ← oneOf? [':'] (f.gap cs)
  let (second, cs) ← f.number? 2 (f.gap cs)
  let (nano, cs) ← fraction? cs
  if hour < 24 ∧ minute < 60 ∧ second ≤ 60 then
    let midnight := hour * 3600 + minute * 60
    if second = 60 then some ((midnight + 59, nano + nanosPerSecond), cs)
    else some ((midnight + second, nano), cs)
  else none

/-- Reads hours and minutes of an offset, in seconds. -/
def offsetSpan? (f : Format) (cs : List Char) : Option (Nat × List Char) := do
  let (hour, cs) ← Timestamp.number? 2 cs
  let cs ← f.colon? cs
  let (minute, cs) ← Timestamp.number? 2 cs
  if hour < 24 ∧ minute < 60 then some (hour * 3600 + minute * 60, cs) else none

/-- Reads an offset from UTC, in seconds. -/
def offset? (f : Format) (cs : List Char) : Option (Int × List Char) :=
  match f.utc? cs, cs with
  | some cs, _ => some (0, cs)
  | none, '+' :: cs => (f.offsetSpan? cs).map fun (n, cs) => ((n : Int), cs)
  | none, '-' :: cs => (f.offsetSpan? cs).map fun (n, cs) => (-(n : Int), cs)
  | none, '−' :: cs => (f.offsetSpan? cs).map fun (n, cs) => (-(n : Int), cs)
  | none, _ => none

end Format

/-- The instant with the given second and nanoseconds, if there are not too many. -/
def instant? (second : Int) (nano : Nat) : Option Instant :=
  if h : nano < 2 * nanosPerSecond then some ⟨second, nano, h⟩ else none

/-- Reads a timestamp in a format. -/
def Format.read? (f : Format) (cs : List Char) : Option Instant := do
  let (date, cs) ← f.date? cs
  let cs ← oneOf? ['T', 't', ' '] cs
  let ((second, nano), cs) ← f.clock? cs
  let (offset, cs) ← f.offset? (f.gap cs)
  if (f.gap cs).isEmpty then
    instant? ((date.day - Calendar.unixEpoch) * 86400 + second - offset) nano
  else none

/-! ### The strict form -/

/-- The format that timestamps are written in. -/
def strict : Format where
  gap cs := cs
  year? cs := (number? 4 cs).map fun (n, cs) => ((n : Int), cs)
  number? := number?
  utc? := oneOf? ['Z', 'z']
  colon? := oneOf? [':']

/-- Reads a timestamp. -/
def read? (cs : List Char) : Option Instant := strict.read? cs

/-! ### The relaxed form -/

/-- The years of the calendar. -/
def hasYear (year : Int) : Bool := -262143 ≤ year && year ≤ 262142

/-- Reads a year of the calendar.  Without a sign it has at most four digits. -/
def signedYear? (cs : List Char) : Option (Int × List Char) :=
  let year? : Option (Int × List Char) :=
    match cs with
    | '-' :: cs => (shortNumber? cs.length cs).map fun (n, cs) => (-(n : Int), cs)
    | '+' :: cs => (shortNumber? cs.length cs).map fun (n, cs) => ((n : Int), cs)
    | cs => (shortNumber? 4 cs).map fun (n, cs) => ((n : Int), cs)
  year?.filter fun (year, _) => hasYear year

/-- Reads the name of UTC, or the letter that stands for it. -/
def nameOfUtc? : List Char → Option (List Char)
  | cs@(u :: t :: c :: rest) =>
    if [u, t, c].map Char.toUpper = ['U', 'T', 'C'] then some rest else oneOf? ['Z', 'z'] cs
  | cs => oneOf? ['Z', 'z'] cs

/-- The format that timestamps from elsewhere may have. -/
def relaxed : Format where
  gap := List.dropWhile Text.isBlank
  year? := signedYear?
  number? := shortNumber?
  utc? := nameOfUtc?
  colon? cs := some (cs.dropWhile fun c => c == ':' || Text.isBlank c)

/-- Reads a timestamp in the relaxed form.  Its offset does not lead out of the calendar. -/
def readRelaxed? (cs : List Char) : Option Instant :=
  (relaxed.read? cs).filter fun t =>
    hasYear (Calendar.yearOf (t.second / 86400 + Calendar.unixEpoch))

end TopicCipher.Timestamp
