/-
  CircuitBroker/Text/Timestamp.lean
  =================================
  **Points in time.**

  An instant is a number of nanoseconds since the beginning of 1970.  It is written with
  the date of the proleptic Gregorian calendar, and with as many groups of three places as
  its fraction of a second needs.
-/
import CircuitBroker.Text.Duration

namespace CircuitBroker

abbrev Instant := Nat

namespace Instant

def padded (width n : Nat) : String :=
  let ds := Decimal.digits n
  String.ofList (List.replicate (width - ds.length) '0') ++ ds

/-- Year, month and day of a day counted from the first of January 1970.  Years are counted
    from the first of March, so that the leap day ends them. -/
def civil (day : Nat) : Nat × Nat × Nat :=
  let shifted := day + 719468
  let era := shifted / 146097
  let dayOfEra := shifted % 146097
  let yearOfEra := (dayOfEra - dayOfEra / 1460 + dayOfEra / 36524 - dayOfEra / 146096) / 365
  let dayOfYear := dayOfEra - (365 * yearOfEra + yearOfEra / 4 - yearOfEra / 100)
  let month := (5 * dayOfYear + 2) / 153
  let dayOfMonth := dayOfYear - (153 * month + 2) / 5 + 1
  let calendarMonth := if month < 10 then month + 3 else month - 9
  (yearOfEra + era * 400 + (if calendarMonth ≤ 2 then 1 else 0), calendarMonth, dayOfMonth)

/-- The fraction of a second in milli-, micro- or nanoseconds, whichever is exact. -/
def fractionText (nanos : Nat) : String :=
  if nanos = 0 then ""
  else if nanos % 1000000 = 0 then "." ++ padded 3 (nanos / 1000000)
  else if nanos % 1000 = 0 then "." ++ padded 6 (nanos / 1000)
  else "." ++ padded 9 nanos

def text (t : Instant) : String :=
  let seconds := t / 1000000000
  let (year, month, day) := civil (seconds / 86400)
  let clock := seconds % 86400
  padded 4 year ++ "-" ++ padded 2 month ++ "-" ++ padded 2 day ++ "T" ++
    padded 2 (clock / 3600) ++ ":" ++ padded 2 (clock / 60 % 60) ++ ":" ++
    padded 2 (clock % 60) ++ fractionText (t % 1000000000) ++ "Z"

end Instant

end CircuitBroker
