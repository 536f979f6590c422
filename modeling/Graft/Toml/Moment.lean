import Graft.Toml.Lexeme
import Graft.Toml.Value

/-!
# Dates and times

A date, a time of day, or a date with a time and perhaps an offset. Months, days
and the parts of a time are checked for their ranges, days against the length of
their month.
-/

namespace Graft.Toml

/-- A number of exactly so many decimal digits within a range. -/
def readRanged (digits low high : Nat) : Reader Nat := fun input =>
  let written := input.take digits
  let value := numberOf 10 written
  if written.length = digits && written.all (isDigitOf 10) && low ≤ value && value ≤ high then
    some (value, input.drop digits)
  else none

/-- One given character. -/
def expect (character : Char) : Reader Unit
  | first :: rest => if first == character then some ((), rest) else none
  | [] => none

/-- The number of days of a month. -/
def daysIn (year month : Nat) : Nat :=
  if month = 2 then
    if year % 4 = 0 ∧ (year % 100 ≠ 0 ∨ year % 400 = 0) then 29 else 28
  else if month = 4 ∨ month = 6 ∨ month = 9 ∨ month = 11 then 30
  else 31

/-- A date. -/
def readDate : Reader Unit := fun input => do
  let (year, rest) ← readRanged 4 0 9999 input
  let ((), rest) ← expect '-' rest
  let (month, rest) ← readRanged 2 1 12 rest
  let ((), rest) ← expect '-' rest
  let (_, rest) ← readRanged 2 1 (daysIn year month) rest
  return ((), rest)

/-- A fraction of a second, if there is one. -/
def skipFraction (input : List Char) : List Char :=
  match input with
  | '.' :: rest =>
    if (rest.takeWhile (isDigitOf 10)).isEmpty then input else rest.dropWhile (isDigitOf 10)
  | _ => input

/-- A time of day. -/
def readTime : Reader Unit := fun input => do
  let (_, rest) ← readRanged 2 0 23 input
  let ((), rest) ← expect ':' rest
  let (_, rest) ← readRanged 2 0 59 rest
  let ((), rest) ← expect ':' rest
  let (_, rest) ← readRanged 2 0 60 rest
  return ((), skipFraction rest)

/-- An offset by hours and minutes. -/
def readHoursAndMinutes : Reader Unit := fun input => do
  let (_, rest) ← readRanged 2 0 23 input
  let ((), rest) ← expect ':' rest
  let (_, rest) ← readRanged 2 0 59 rest
  return ((), rest)

/-- An offset from universal time, if there is one. -/
def readOffset : Reader Unit
  | 'Z' :: rest => some ((), rest)
  | 'z' :: rest => some ((), rest)
  | '+' :: rest => readHoursAndMinutes rest
  | '-' :: rest => readHoursAndMinutes rest
  | input => some ((), input)

/-- The time that may follow a date. A space separates the two only if a time
    does follow. -/
def readTimeAfterDate (input : List Char) : Option (Unit × List Char) :=
  match input with
  | separator :: rest =>
    if separator == 'T' || separator == 't' || separator == ' ' then
      match readTime rest with
      | some ((), rest) => readOffset rest
      | none => some ((), input)
    else some ((), input)
  | [] => some ((), [])

/-- Read a date, a time, or both. -/
def readMoment : Reader Value := fun input =>
  match readDate input with
  | some ((), rest) => (readTimeAfterDate rest).map fun ((), rest) => (.datetime, rest)
  | none => (readTime input).map fun ((), rest) => (.datetime, rest)

end Graft.Toml
