import WorkflowEngine.Decimal.Shortest

/-!
# Decimal layouts

How the digits of a number are laid out. A layout is one record: where positional writing ends,
what follows a whole number, how an exponent is written, and the words for values without digits.
-/

namespace WorkflowEngine.Decimal

structure Layout where
  tie : Tie
  /-- The decimal point may stand this many places left of the first digit. -/
  leastPoint : Option Int
  /-- The decimal point may stand this many places right of the first digit's left edge. -/
  greatestPoint : Option Int
  wholeSuffix : String
  positiveExponent : String
  nan : String
  infinity : String

/-- The layout of numbers in documents: positional from `0.00001` up to sixteen places. -/
def document : Layout :=
  { tie := .toEven, leastPoint := some (-4), greatestPoint := some 16, wholeSuffix := ".0",
    positiveExponent := "e+", nan := "null", infinity := "null" }

/-- The layout of numbers in running text: always positional, whole numbers without a fraction. -/
def running : Layout :=
  { tie := .up, leastPoint := none, greatestPoint := none, wholeSuffix := "",
    positiveExponent := "e+", nan := "NaN", infinity := "inf" }

def zeros (n : Nat) : String := String.ofList (List.replicate n '0')

/-- Digits with the point `point` places after their left edge. -/
def positional (l : Layout) (digits : List Char) (point : Int) : String :=
  if digits.length ≤ point then
    String.ofList digits ++ zeros (point.toNat - digits.length) ++ l.wholeSuffix
  else if 0 < point then
    String.ofList (digits.take point.toNat) ++ "." ++ String.ofList (digits.drop point.toNat)
  else "0." ++ zeros (-point).toNat ++ String.ofList digits

def scientific (l : Layout) (digits : List Char) (point : Int) : String :=
  let mantissa := match digits with
    | [] => "0"
    | [d] => String.ofList [d]
    | d :: rest => String.ofList [d, '.'] ++ String.ofList rest
  let exponent := point - 1
  if exponent < 0 then mantissa ++ "e" ++ toString exponent
  else mantissa ++ l.positiveExponent ++ toString exponent

/-- Drops zeros at the end of the digits of a nonzero number. -/
def trimZeros (s : Scaled) : Scaled :=
  go 400 s
where
  go : Nat → Scaled → Scaled
    | 0, s => s
    | steps + 1, s =>
      if s.digits ≠ 0 ∧ s.digits % 10 = 0 then go steps ⟨s.digits / 10, s.exponent + 1⟩ else s

def writeMagnitude (l : Layout) (s : Scaled) : String :=
  if s.digits = 0 then "0" ++ l.wholeSuffix
  else
    let s := trimZeros s
    let digits := Nat.toDigits 10 s.digits
    let point := Int.ofNat digits.length + s.exponent
    let fits := (match l.leastPoint with | some p => decide (p ≤ point) | none => true)
      && (match l.greatestPoint with | some p => decide (point ≤ p) | none => true)
    if fits then positional l digits point else scientific l digits point

/-- The text of a number. -/
def write (l : Layout) (x : Binary64) : String :=
  if x.isNaN then l.nan
  else
    let sign := if x.isNegative then "-" else ""
    if x.isFinite then sign ++ writeMagnitude l (shortest l.tie x)
    else sign ++ l.infinity

end WorkflowEngine.Decimal
