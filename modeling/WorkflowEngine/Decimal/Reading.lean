import WorkflowEngine.Decimal.Binary64

/-!
# Reading decimals

Two readers. `ofText?` reads a number that stands alone in a text and rounds once. `ofParts` scales
a word of leading digits by a power of ten, with one rounding for each step.
-/

namespace WorkflowEngine.Decimal

def digitValue (c : Char) : Nat := c.toNat - '0'.toNat

def natOfDigits (cs : List Char) : Nat := cs.foldl (fun n c => 10 * n + digitValue c) 0

/-- The digits at the front of a text, and what follows them. -/
def spanDigits (cs : List Char) : List Char × List Char := cs.span Char.isDigit

/-- An exponent past every finite number and every subnormal is as good as one that is larger. -/
def clampExponent (digits : List Char) (negative : Bool) (places : Int) : Int :=
  let e := Int.ofNat (natOfDigits digits)
  max (-100000) (min 100000 (if negative then places - e else places + e))

/-- An optional exponent that must reach to the end of the text. -/
def exponent? (places : Int) : List Char → Option Int
  | [] => some places
  | c :: rest =>
    if c = 'e' ∨ c = 'E' then
      let (negative, digits) := match rest with
        | '-' :: r => (true, r)
        | '+' :: r => (false, r)
        | r => (false, r)
      if digits.isEmpty || !digits.all Char.isDigit then none
      else some (clampExponent digits negative places)
    else none

/-- A number without its sign: digits with an optional point, at least one digit in all, and an
optional exponent; or a word for infinity or for no number, in letters of either case. -/
def magnitude? (cs : List Char) : Option Binary64 :=
  let word := String.ofList (cs.map Char.toLower)
  if word = "inf" ∨ word = "infinity" then some Binary64.infinity
  else if word = "nan" then some Binary64.nan
  else
    let (whole, rest) := spanDigits cs
    let (fraction, rest) := match rest with
      | '.' :: r => spanDigits r
      | r => ([], r)
    if whole.isEmpty && fraction.isEmpty then none
    else do
      let e ← exponent? (-Int.ofNat fraction.length) rest
      let mantissa := natOfDigits (whole ++ fraction)
      return if mantissa = 0 then Binary64.zero else Binary64.ofDecimal mantissa e

/-- The number a text stands for, rounded once to the nearest. -/
def ofText? (s : String) : Option Binary64 :=
  match s.toList with
  | '-' :: rest => (magnitude? rest).map Binary64.neg
  | '+' :: rest => magnitude? rest
  | cs => magnitude? cs

/-- The word `significand` times ten to the `exponent`. Powers beyond the largest finite one are
taken in two steps; a result past every finite number is refused. -/
def ofParts (significand : Nat) (exponent : Int) : Option Binary64 :=
  go 40 (Binary64.ofInt significand) exponent
where
  go : Nat → Binary64 → Int → Option Binary64
    | 0, f, _ => some f
    | steps + 1, f, e =>
      if e.natAbs ≤ 308 then
        let power := Binary64.ofDecimal 1 e.natAbs
        if 0 ≤ e then
          let f := f.mul power
          if f.isFinite then some f else none
        else some (f.div power)
      else if f.same Binary64.zero then some f
      else if 0 ≤ e then none
      else go steps (f.div (Binary64.ofDecimal 1 308)) (e + 308)

end WorkflowEngine.Decimal
