import WorkflowEngine.Decimal.Reading
import WorkflowEngine.Time.Instant

/-!
# Reading instants

Two grammars of one text. Tables hold the strict form: fields of fixed width, with an offset in
hours and minutes. Documents may also have blanks before the fields, shorter fields, signed years,
and the offset as `UTC` or without its colon.
-/

namespace WorkflowEngine.Instant

/-- A number of at least one and at most `most` digits. -/
def digits? (least most : Nat) (cs : List Char) : Option (Nat × List Char) :=
  let ds := (cs.take most).takeWhile Char.isDigit
  if ds.length < least ∨ ds.isEmpty then none
  else some (Decimal.natOfDigits ds, cs.drop ds.length)

def char? (c : Char) : List Char → Option (List Char)
  | d :: rest => if c = d then some rest else none
  | [] => none

/-- The letter or blank between date and time. -/
def separator? : List Char → Option (List Char)
  | c :: rest => if c = 't' ∨ c = 'T' ∨ c = ' ' then some rest else none
  | [] => none

/-- An optional fraction of a second in nanoseconds; digits past the ninth are dropped. -/
def fraction? : List Char → Option (Nat × List Char)
  | '.' :: rest => do
    let (n, after) ← digits? 1 9 rest
    let width := rest.length - after.length
    return (n * Nat.pow 10 (9 - width), after.dropWhile Char.isDigit)
  | rest => some (0, rest)

/-- Two digits at the front. -/
def pair? : List Char → Option (Nat × List Char)
  | a :: b :: rest =>
    if a.isDigit && b.isDigit then
      some (10 * Decimal.digitValue a + Decimal.digitValue b, rest)
    else none
  | _ => none

/-- An offset in seconds: `Z`, or a signed count of hours and minutes. `colon` reads what stands
between the two. -/
def offset? (colon : List Char → Option (List Char)) : List Char → Option (Int × List Char)
  | [] => none
  | c :: rest =>
    if c = 'Z' ∨ c = 'z' then some (0, rest)
    else if c = '+' ∨ c = '-' ∨ c = '\u2212' then do
      let (hours, rest) ← pair? rest
      let (minutes, rest) ← pair? (← colon rest)
      if 60 ≤ minutes then none
      else
        let seconds := Int.ofNat (3600 * hours + 60 * minutes)
        return (if c = '+' then seconds else -seconds, rest)
    else none

/-- The instant of a local date and time at an offset. The fields must exist in the calendar; a
second of 60 is a leap second. -/
def ofFields? (f : Fields) (offset : Int) : Option Instant :=
  if 1 ≤ f.month ∧ f.month ≤ 12 ∧ 1 ≤ f.day ∧ f.day ≤ Calendar.daysInMonth f.year f.month
    ∧ f.hour ≤ 23 ∧ f.minute ≤ 59 ∧ f.second ≤ 60
    ∧ -262143 ≤ f.year ∧ f.year ≤ 262142
    ∧ -86400 < offset ∧ offset < 86400 then
    let day := Calendar.dayNumber f.year f.month f.day
    let leap := decide (f.second = 60)
    let second := if leap then 59 else f.second
    let seconds := day * 86400 + Int.ofNat (3600 * f.hour + 60 * f.minute + second) - offset
    let year := (Calendar.date (seconds.fdiv 86400)).1
    if year < -262143 ∨ 262142 < year then none
    else some ⟨seconds, if leap then f.nanos + 1000000000 else f.nanos⟩
  else none

/-- The strict form. -/
def ofRowText? (s : String) : Option Instant := do
  let (year, cs) ← digits? 4 4 s.toList
  let (month, cs) ← digits? 2 2 (← char? '-' cs)
  let (day, cs) ← digits? 2 2 (← char? '-' cs)
  let (hour, cs) ← digits? 2 2 (← separator? cs)
  let (minute, cs) ← digits? 2 2 (← char? ':' cs)
  let (second, cs) ← digits? 2 2 (← char? ':' cs)
  let (nanos, cs) ← fraction? cs
  let (offset, cs) ← offset? (char? ':') cs
  if cs.isEmpty then ofFields? ⟨year, month, day, hour, minute, second, nanos⟩ offset else none

/-- A year of up to four digits, or a signed one of any length. -/
def year? (cs : List Char) : Option (Int × List Char) :=
  match Text.trimLeft cs with
  | '-' :: rest => (digits? 1 rest.length rest).map fun (n, r) => (-Int.ofNat n, r)
  | '+' :: rest => (digits? 1 rest.length rest).map fun (n, r) => (Int.ofNat n, r)
  | rest => (digits? 1 4 rest).map fun (n, r) => (Int.ofNat n, r)

/-- A field of one or two digits after a mark, with blanks allowed around the mark. -/
def markedField? (mark : Char) (cs : List Char) : Option (Nat × List Char) := do
  digits? 1 2 (Text.trimLeft (← char? mark (Text.trimLeft cs)))

/-- The offset of the relaxed form. -/
def relaxedOffset? (cs : List Char) : Option (Int × List Char) :=
  if (cs.take 3).map Char.toUpper = ['U', 'T', 'C'] then some (0, cs.drop 3)
  else offset? (fun r => some (r.dropWhile fun c => c == ':' || Text.isBlank c)) cs

/-- The relaxed form. -/
def ofText? (s : String) : Option Instant := do
  let (year, cs) ← year? s.toList
  let (month, cs) ← markedField? '-' cs
  let (day, cs) ← markedField? '-' cs
  let (hour, cs) ← digits? 1 2 (Text.trimLeft (← separator? cs))
  let (minute, cs) ← markedField? ':' cs
  let (second, cs) ← markedField? ':' cs
  let (nanos, cs) ← fraction? cs
  let (offset, cs) ← relaxedOffset? (Text.trimLeft cs)
  if (Text.trimLeft cs).isEmpty then ofFields? ⟨year, month, day, hour, minute, second, nanos⟩ offset
  else none

end WorkflowEngine.Instant
