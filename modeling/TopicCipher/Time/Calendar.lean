/-!
# The Gregorian calendar

Days are numbered from the first of January of the year `0`, forward and backward without end.
`Date.ofDay` and `Date.day` go back and forth between day numbers and dates.

The year of a day is guessed from the length of the four-hundred-year cycle, which is off by at
most one, and then corrected; the month is found by walking over the lengths of the months.
-/

namespace TopicCipher.Calendar

/-- Holds of years with a twenty-ninth of February. -/
def isLeapYear (year : Int) : Bool :=
  year % 4 = 0 && (year % 100 ≠ 0 || year % 400 = 0)

/-- The lengths of the months. -/
def monthLengths (year : Int) : List Nat :=
  [31, if isLeapYear year then 29 else 28, 31, 30, 31, 30, 31, 31, 30, 31, 30, 31]

/-- The number of days before the given month. -/
def daysBefore (lengths : List Nat) (month : Nat) : Nat :=
  (lengths.take (month - 1)).foldl (· + ·) 0

/-- The number of the first day of a year. -/
def yearStart (year : Int) : Int :=
  365 * year + (year + 3) / 4 - (year + 99) / 100 + (year + 399) / 400

/-- The number of the first day of 1970. -/
def unixEpoch : Int := yearStart 1970

/-- The year of a day. -/
def yearOf (day : Int) : Int :=
  let guess := 400 * day / 146097
  if day < yearStart guess then guess - 1
  else if yearStart (guess + 1) ≤ day then guess + 1
  else guess

/-- A day by year, month and day of the month, the latter two from `1`. -/
structure Date where
  year : Int
  month : Nat
  dayOfMonth : Nat
  deriving DecidableEq, Repr

/-- Walks over the lengths of the months from the given one on to find the month of a day. -/
def monthOf : (lengths : List Nat) → (month : Nat) → (dayOfYear : Nat) → Nat × Nat
  | [], month, dayOfYear => (month, dayOfYear + 1)
  | length :: rest, month, dayOfYear =>
    if dayOfYear < length then (month, dayOfYear + 1)
    else monthOf rest (month + 1) (dayOfYear - length)

namespace Date

/-- The date of a day. -/
def ofDay (day : Int) : Date :=
  let year := yearOf day
  let (month, dayOfMonth) := monthOf (monthLengths year) 1 (day - yearStart year).toNat
  ⟨year, month, dayOfMonth⟩

/-- Holds of dates that exist. -/
def exists? (d : Date) : Bool :=
  1 ≤ d.month && d.month ≤ 12 && 1 ≤ d.dayOfMonth &&
    d.dayOfMonth ≤ (monthLengths d.year).getD (d.month - 1) 0

/-- The number of the day of a date. -/
def day (d : Date) : Int :=
  yearStart d.year + daysBefore (monthLengths d.year) d.month + (d.dayOfMonth - 1 : Nat)

end Date

end TopicCipher.Calendar
