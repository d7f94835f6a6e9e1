namespace EdgeFleet

/-- A moment, in milliseconds since the start of 1970. -/
structure Timestamp where
  millis : Nat
  deriving DecidableEq, Inhabited

namespace Timestamp

/-- A day of the calendar. -/
structure Date where
  year : Nat
  month : Nat
  day : Nat
  deriving DecidableEq

/-- The date so many days after the first of January 1970. Years are counted from March on, so that
the leap day is the last one. -/
def date (days : Nat) : Date :=
  -- days since the first of March of the year zero, in cycles of 400 years
  let z := days + 719468
  let era := z / 146097
  let dayOfEra := z % 146097
  let yearOfEra := (dayOfEra - dayOfEra / 1460 + dayOfEra / 36524 - dayOfEra / 146096) / 365
  let dayOfYear := dayOfEra - (365 * yearOfEra + yearOfEra / 4 - yearOfEra / 100)
  -- five months from March on have 153 days, and so have the next five
  let shifted := (5 * dayOfYear + 2) / 153
  let month := if shifted < 10 then shifted + 3 else shifted - 9
  { year := era * 400 + yearOfEra + (if month ≤ 2 then 1 else 0)
    month
    day := dayOfYear - (153 * shifted + 2) / 5 + 1 }

/-- A number with zeros in front up to a width. -/
def padded (width n : Nat) : String :=
  let digits := Nat.toDigits 10 n
  String.ofList (List.replicate (width - digits.length) '0' ++ digits)

/-- The part of the date or of the time of day that a letter stands for in a form. -/
def part (t : Timestamp) (letter : Char) : String :=
  let seconds := t.millis / 1000
  let d := date (seconds / 86400)
  let s := seconds % 86400
  match letter with
  | 'Y' => padded 4 d.year
  | 'm' => padded 2 d.month
  | 'd' => padded 2 d.day
  | 'H' => padded 2 (s / 3600)
  | 'M' => padded 2 (s / 60 % 60)
  | 'S' => padded 2 (s % 60)
  | other => other.toString

/-- The moment in a form, where a letter behind a percent sign stands for its part. -/
def inForm (t : Timestamp) : List Char → String
  | '%' :: letter :: rest => t.part letter ++ t.inForm rest
  | c :: rest => c.toString ++ t.inForm rest
  | [] => ""

/-- The form in which the directory stores a moment. -/
def storedForm : String := "%Y-%m-%d %H:%M:%S"

/-- The text that the directory stores, to the second. -/
def stored (t : Timestamp) : String := t.inForm storedForm.toList

/-- The text that answers show, to the millisecond. -/
def shown (t : Timestamp) : String :=
  let part := t.millis % 1000
  t.inForm "%Y-%m-%dT%H:%M:%S".toList ++ (if part = 0 then "" else "." ++ padded 3 part) ++ "Z"

/-- Waits of at least so many seconds end behind the last moment that the clock can count: it counts
seconds in 63 bits and is a quarter of an hour old when the service starts. -/
def endlessSeconds : Nat := 0x7FFFFFFFFFFFFFFF - 900

/-- Thirty years in milliseconds, the wait in place of an endless one. -/
def thirtyYears : Nat := 30 * 365 * 86400 * 1000

/-- The milliseconds that a wait takes for which so many seconds were asked. -/
def wait (seconds : Nat) : Nat :=
  if endlessSeconds ≤ seconds then thirtyYears else 1000 * seconds

end Timestamp

end EdgeFleet
