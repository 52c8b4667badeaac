import DeviceSchema.Text.Fixed

/-! # Instants

An instant of universal time, to the millisecond, and its text.  Years are counted
from March on, so that the day that only some years have is their last.
-/
namespace DeviceSchema

/-- A date of the calendar. -/
structure Day where
  year : Nat
  month : Nat
  day : Nat
deriving DecidableEq, Repr

/-- The day that is so many days after the first of January 1970. -/
def Day.ofNumber (number : Nat) : Day :=
  let shifted := number + 719468
  let cycle := shifted / 146097
  let ofCycle := shifted % 146097
  let yearOfCycle := (ofCycle - ofCycle / 1460 + ofCycle / 36524 - ofCycle / 146096) / 365
  let ofYear := ofCycle - (365 * yearOfCycle + yearOfCycle / 4 - yearOfCycle / 100)
  let monthFromMarch := (5 * ofYear + 2) / 153
  let month := if monthFromMarch < 10 then monthFromMarch + 3 else monthFromMarch - 9
  { year := yearOfCycle + 400 * cycle + (if month ≤ 2 then 1 else 0)
    month
    day := ofYear - (153 * monthFromMarch + 2) / 5 + 1 }

/-- The text of the instant that is so many milliseconds after the start of 1970. -/
def instantText (milliseconds : Nat) : String :=
  let seconds := milliseconds / 1000
  let day := Day.ofNumber (seconds / 86400)
  Text.padded 4 day.year ++ "-" ++ Text.padded 2 day.month ++ "-" ++ Text.padded 2 day.day ++
    "T" ++ Text.padded 2 (seconds / 3600 % 24) ++ ":" ++ Text.padded 2 (seconds / 60 % 60) ++
    ":" ++ Text.padded 2 (seconds % 60) ++ "." ++ Text.padded 3 (milliseconds % 1000) ++ "Z"

end DeviceSchema
