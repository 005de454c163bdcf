import WorkflowEngine.Text.Blank

/-!
# Instants

Moments of universal time to the nanosecond, and their text in the form of RFC 3339. A leap second
is the second before it with more than a second of nanoseconds.
-/

namespace WorkflowEngine

/-- Whole seconds since the start of 1970, and nanoseconds after them: below one second, or below
two in a leap second. -/
structure Instant where
  seconds : Int
  nanos : Nat
deriving DecidableEq, Inhabited

namespace Instant

def le (a b : Instant) : Bool :=
  decide (a.seconds < b.seconds) || (a.seconds == b.seconds && decide (a.nanos ≤ b.nanos))

def addMicros (a : Instant) (n : Nat) : Instant :=
  let nanos := a.nanos + 1000 * n
  ⟨a.seconds + nanos / 1000000000, nanos % 1000000000⟩

end Instant

namespace Calendar

/-- Day number of a date, with 1970-01-01 as day zero. Years are counted from March. -/
def dayNumber (year : Int) (month day : Nat) : Int :=
  let y := if month ≤ 2 then year - 1 else year
  let era := y.fdiv 400
  let yearOfEra := y - era * 400
  let m := Int.ofNat ((month + 9) % 12)
  let dayOfYear := (153 * m + 2) / 5 + day - 1
  let dayOfEra := yearOfEra * 365 + yearOfEra / 4 - yearOfEra / 100 + dayOfYear
  era * 146097 + dayOfEra - 719468

/-- The date of a day number. -/
def date (day : Int) : Int × Nat × Nat :=
  let z := day + 719468
  let era := z.fdiv 146097
  let dayOfEra := z - era * 146097
  let yearOfEra := (dayOfEra - dayOfEra / 1460 + dayOfEra / 36524 - dayOfEra / 146096) / 365
  let dayOfYear := dayOfEra - (365 * yearOfEra + yearOfEra / 4 - yearOfEra / 100)
  let m := (5 * dayOfYear + 2) / 153
  let d := dayOfYear - (153 * m + 2) / 5 + 1
  let month := if m < 10 then m + 3 else m - 9
  let year := yearOfEra + era * 400
  (if month ≤ 2 then year + 1 else year, month.toNat, d.toNat)

def isLeapYear (year : Int) : Bool :=
  year.fmod 4 == 0 && (year.fmod 100 != 0 || year.fmod 400 == 0)

def daysInMonth (year : Int) (month : Nat) : Nat :=
  if month = 2 then (if isLeapYear year then 29 else 28)
  else if month = 4 ∨ month = 6 ∨ month = 9 ∨ month = 11 then 30
  else 31

/-- Years outside the four digits carry a sign. -/
def yearText (year : Int) : String :=
  if 0 ≤ year ∧ year ≤ 9999 then Text.padZeros 4 year.toNat
  else (if year < 0 then "-" else "+") ++ Text.padZeros 4 year.natAbs

end Calendar

namespace Instant

/-- Year, month, day, hour, minute, second and nanosecond. The second is 60 in a leap second. -/
structure Fields where
  year : Int
  month : Nat
  day : Nat
  hour : Nat
  minute : Nat
  second : Nat
  nanos : Nat

def fields (t : Instant) : Fields :=
  let day := t.seconds.fdiv 86400
  let rest := (t.seconds - day * 86400).toNat
  let (year, month, monthDay) := Calendar.date day
  let leap := decide (1000000000 ≤ t.nanos)
  { year, month, day := monthDay
    hour := rest / 3600, minute := rest / 60 % 60
    second := if leap then rest % 60 + 1 else rest % 60
    nanos := if leap then t.nanos - 1000000000 else t.nanos }

/-- As few fraction digits as hold the value: none, three, six or nine. -/
def fractionText (nanos : Nat) : String :=
  if nanos = 0 then ""
  else if nanos % 1000000 = 0 then "." ++ Text.padZeros 3 (nanos / 1000000)
  else if nanos % 1000 = 0 then "." ++ Text.padZeros 6 (nanos / 1000)
  else "." ++ Text.padZeros 9 nanos

def dateText (f : Fields) : String :=
  Calendar.yearText f.year ++ "-" ++ Text.padZeros 2 f.month ++ "-" ++ Text.padZeros 2 f.day

/-- The text without an offset. -/
def localText (t : Instant) : String :=
  let f := t.fields
  dateText f ++ "T" ++ Text.padZeros 2 f.hour ++ ":" ++ Text.padZeros 2 f.minute ++ ":"
    ++ Text.padZeros 2 f.second ++ fractionText f.nanos

/-- The text in documents. -/
def text (t : Instant) : String := t.localText ++ "Z"

/-- The text in tables. -/
def rowText (t : Instant) : String := t.localText ++ "+00:00"

/-- Date, hour and minute. -/
def minuteText (t : Instant) : String :=
  let f := t.fields
  dateText f ++ " " ++ Text.padZeros 2 f.hour ++ ":" ++ Text.padZeros 2 f.minute

end Instant

end WorkflowEngine
