import WorkflowEngine.Decimal.Reading
import WorkflowEngine.Json.Basic
import WorkflowEngine.Json.Shape

/-!
# Reading JSON

A reader for texts of a given shape. Lists and objects may be nested 127 deep. In a place that is
passed over only the grammar counts: numbers may be of any size, texts may hold half of a surrogate
pair, and nesting has no limit.
-/

namespace WorkflowEngine.Json

def isBlank (c : Char) : Bool := c = ' ' || c = '\n' || c = '\r' || c = '\t'

def skipBlanks (cs : List Char) : List Char := cs.dropWhile isBlank

def hexValue? (c : Char) : Option Nat :=
  if c.isDigit then some (c.toNat - '0'.toNat)
  else if 'a' ≤ c ∧ c ≤ 'f' then some (c.toNat - 'a'.toNat + 10)
  else if 'A' ≤ c ∧ c ≤ 'F' then some (c.toNat - 'A'.toNat + 10)
  else none

/-- Four hexadecimal digits. -/
def unit? : List Char → Option (Nat × List Char)
  | a :: b :: c :: d :: rest => do
    let n := (← hexValue? a) * 4096 + (← hexValue? b) * 256 + (← hexValue? c) * 16 + (← hexValue? d)
    return (n, rest)
  | _ => none

/-- The character written by an escape, after the backslash. A leading surrogate needs its partner
right behind it. A lone surrogate is let pass as a replacement character only when `lenient`. -/
def escaped? (lenient : Bool) : List Char → Option (Char × List Char)
  | '"' :: rest => some ('"', rest)
  | '\\' :: rest => some ('\\', rest)
  | '/' :: rest => some ('/', rest)
  | 'b' :: rest => some (Char.ofNat 8, rest)
  | 'f' :: rest => some (Char.ofNat 12, rest)
  | 'n' :: rest => some ('\n', rest)
  | 'r' :: rest => some ('\r', rest)
  | 't' :: rest => some ('\t', rest)
  | 'u' :: rest => do
    let (n, rest) ← unit? rest
    if lenient then return ('\ufffd', rest)
    else if 0xd800 ≤ n ∧ n < 0xdc00 then
      match rest with
      | '\\' :: 'u' :: more =>
        let (m, more) ← unit? more
        if 0xdc00 ≤ m ∧ m < 0xe000 then
          return (Char.ofNat (0x10000 + (n - 0xd800) * 0x400 + (m - 0xdc00)), more)
        else none
      | _ => none
    else if 0xdc00 ≤ n ∧ n < 0xe000 then none
    else return (Char.ofNat n, rest)
  | _ => none

/-- The characters up to the closing quote. -/
def stringBody? (lenient : Bool) : Nat → List Char → List Char → Option (String × List Char)
  | 0, _, _ => none
  | _ + 1, _, [] => none
  | fuel + 1, read, c :: rest =>
    if c = '"' then some (String.ofList read.reverse, rest)
    else if c = '\\' then
      match escaped? lenient rest with
      | some (c, rest) => stringBody? lenient fuel (c :: read) rest
      | none => none
    else if c.toNat < 32 then none
    else stringBody? lenient fuel (c :: read) rest

def string? (lenient : Bool) (cs : List Char) : Option (String × List Char) :=
  stringBody? lenient (cs.length + 1) [] cs

/-- Leading digits that fit in a word, and the digits that do not. -/
def wordDigits : Nat → List Char → Nat × List Char
  | n, [] => (n, [])
  | n, c :: rest =>
    let longer := 10 * n + Decimal.digitValue c
    if longer < Word.unsignedEnd then wordDigits longer rest else (n, c :: rest)

/-- The parts of a number: whole digits, fraction digits when there is a point, and the exponent's
sign and digits when there is one. -/
structure Numeral where
  negative : Bool
  whole : List Char
  fraction : Option (List Char)
  exponent : Option (Bool × List Char)

/-- The digits after a point, if there is one. -/
def fractionPart? : List Char → Option (Option (List Char) × List Char)
  | '.' :: rest =>
    let (digits, rest) := Decimal.spanDigits rest
    if digits.isEmpty then none else some (some digits, rest)
  | rest => some (none, rest)

/-- Whether an exponent is negative, and what follows its sign. -/
def exponentSign : List Char → Bool × List Char
  | '-' :: rest => (true, rest)
  | '+' :: rest => (false, rest)
  | rest => (false, rest)

/-- The sign and the digits of an exponent, if there is one. -/
def exponentPart? : List Char → Option (Option (Bool × List Char) × List Char)
  | [] => some (none, [])
  | c :: rest =>
    if c = 'e' ∨ c = 'E' then
      let (down, rest) := exponentSign rest
      let (digits, rest) := Decimal.spanDigits rest
      if digits.isEmpty then none else some (some (down, digits), rest)
    else some (none, c :: rest)

/-- A number without its sign: no leading zeros, and digits on both sides of a point. -/
def numeral? (negative : Bool) (cs : List Char) : Option (Numeral × List Char) :=
  let (whole, rest) := Decimal.spanDigits cs
  if whole.isEmpty || (whole.head? == some '0' && whole.length != 1) then none
  else do
    let (fraction, rest) ← fractionPart? rest
    let (exponent, rest) ← exponentPart? rest
    return (⟨negative, whole, fraction, exponent⟩, rest)

/-- The number of a numeral with a point, an exponent or too many digits: a word of leading digits
scaled by a power of ten. Digits of a fraction that do not fit in the word are dropped. -/
def Numeral.scaled? (n : Numeral) : Option Binary64 := do
  let (word, excess) := wordDigits 0 n.whole
  let fraction := n.fraction.getD []
  let (significand, places) :=
    if excess.isEmpty then
      let (word', dropped) := wordDigits word fraction
      (word', Int.ofNat dropped.length - Int.ofNat fraction.length)
    else
      let (word', dropped) := wordDigits word fraction
      (word', Int.ofNat excess.length - (Int.ofNat fraction.length - Int.ofNat dropped.length))
  let magnitude ← match n.exponent with
    | none => Decimal.ofParts significand places
    | some (down, digits) =>
      let e := Decimal.natOfDigits digits
      if 0x80000000 ≤ e then
        if significand ≠ 0 ∧ !down then none else some Binary64.zero
      else Decimal.ofParts significand (if down then places - e else places + e)
  return if n.negative then magnitude.neg else magnitude

/-- A numeral of digits alone that fits in a signed or unsigned word is an integer; minus zero is a
float. -/
def Numeral.value? (n : Numeral) : Option Json :=
  let whole := Decimal.natOfDigits n.whole
  if n.fraction.isNone && n.exponent.isNone && whole < Word.unsignedEnd then
    if !n.negative then some (.int whole)
    else if whole = 0 then some (.float Binary64.negativeZero)
    else if whole ≤ Word.signedEnd then some (.int (-whole))
    else some (.float (Binary64.ofInt (-whole)))
  else n.scaled?.map .float

def numberOf (shape : Shape) (negative : Bool) (cs : List Char) : Option (Json × List Char) := do
  let (n, rest) ← numeral? negative cs
  match shape with
  | .skipped => return (.null, rest)
  | _ => return (← n.value?, rest)

def word (text : List Char) (v : Json) (cs : List Char) : Option (Json × List Char) :=
  if text.isPrefixOf cs then some (v, cs.drop text.length) else none

/-- Whether nesting is counted in a place. -/
def Shape.counts : Shape → Bool
  | .skipped => false
  | _ => true

/-- Adds a member to those read so far, the latest first. A record refuses a second value for one
of its fields. -/
def addMember (shape : Shape) (members : List (String × Json)) (key : String) (v : Json) :
    Option (List (String × Json)) :=
  match shape with
  | .record r =>
    if r.fieldNames.contains key then
      if (members.lookup key).isSome then none else some ((key, v) :: members)
    else some members
  | _ => some ((key, v) :: members)

/-- The object made of all members, given latest first. -/
def closeObject (shape : Shape) (members : List (String × Json)) : Json :=
  match shape with
  | .record _ | .table _ | .word | .event => .obj members.reverse
  | .skipped => .null
  | .value | .list _ => Json.ofMap (KeyMap.ofList members.reverse)

mutual

/-- A value, with `depth` levels of nesting left. -/
def readValue (shape : Shape) (depth : Nat) : Nat → List Char → Option (Json × List Char)
  | 0, _ => none
  | fuel + 1, cs =>
    match skipBlanks cs with
    | [] => none
    | '"' :: rest => do
      let (s, rest) ← string? (!shape.counts) rest
      return (.str s, rest)
    | '[' :: rest =>
      if shape.counts && depth ≤ 1 then none
      else match skipBlanks rest with
        | ']' :: rest => some (.arr [], rest)
        | rest => readItems shape (depth - 1) 0 [] fuel rest
    | '\x7b' :: rest =>
      if shape.counts && depth ≤ 1 then none
      else match skipBlanks rest with
        | '\x7d' :: rest => some (closeObject shape [], rest)
        | rest => readMembers shape (depth - 1) [] fuel rest
    | 'n' :: rest => word ['u', 'l', 'l'] .null rest
    | 't' :: rest => word ['r', 'u', 'e'] (.bool true) rest
    | 'f' :: rest => word ['a', 'l', 's', 'e'] (.bool false) rest
    | '-' :: rest => numberOf shape true rest
    | cs => numberOf shape false cs
termination_by structural fuel => fuel

/-- The items of a list after those read so far, which stand latest first. -/
def readItems (shape : Shape) (depth : Nat) (index : Nat) (items : List Json) :
    Nat → List Char → Option (Json × List Char)
  | 0, _ => none
  | fuel + 1, cs => do
    let (v, rest) ← readValue (shape.item index) depth fuel cs
    match skipBlanks rest with
    | ',' :: rest => readItems shape depth (index + 1) (v :: items) fuel rest
    | ']' :: rest => return (.arr (v :: items).reverse, rest)
    | _ => none
termination_by structural fuel => fuel

/-- The members of an object after those read so far, which stand latest first. -/
def readMembers (shape : Shape) (depth : Nat) (members : List (String × Json)) :
    Nat → List Char → Option (Json × List Char)
  | 0, _ => none
  | fuel + 1, cs => do
    match skipBlanks cs with
    | '"' :: rest =>
      let (key, rest) ← string? (!shape.counts) rest
      match skipBlanks rest with
      | ':' :: rest =>
        let (v, rest) ← readValue (shape.member key) depth fuel rest
        let members ← addMember shape members key v
        match skipBlanks rest with
        | ',' :: rest => readMembers shape depth members fuel rest
        | '\x7d' :: rest => return (closeObject shape members, rest)
        | _ => none
      | _ => none
    | _ => none
termination_by structural fuel => fuel

end

/-- The value a text of the given shape stands for; nothing but blanks may follow it. -/
def read? (shape : Shape) (text : String) : Option Json := do
  let cs := text.toList
  let (v, rest) ← readValue shape 128 (2 * cs.length + 2) cs
  if (skipBlanks rest).isEmpty then some v else none

end WorkflowEngine.Json
