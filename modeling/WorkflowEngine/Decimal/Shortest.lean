import WorkflowEngine.Decimal.Binary64

/-!
# Shortest decimals

The decimal with the fewest digits that reads back as a given number, and of those the nearest.
All comparisons are between exact naturals.
-/

namespace WorkflowEngine.Decimal

/-- Which of two equally near candidates is taken. -/
inductive Tie where
  | toEven
  | up

/-- The number `digits` times ten to the `exponent`. -/
structure Scaled where
  digits : Nat
  exponent : Int

/-- The reals that round to one number, in quarters of its unit: `low`, the number and `high` times
two to `unit`, with the ends included when `closed`. -/
structure Interval where
  low : Nat
  value : Nat
  high : Nat
  unit : Int
  closed : Bool

/-- The lower gap is half as wide at a power of two. -/
def Interval.ofBinary64 (x : Binary64) : Interval :=
  let m := x.magnitude.1
  let narrow := x.fractionBits = 0 ∧ 1 < x.exponentBits
  { low := if narrow then 4 * m - 1 else 4 * m - 2
    value := 4 * m
    high := 4 * m + 2
    unit := x.magnitude.2 - 2
    closed := m % 2 == 0 }

namespace Interval

/-- `d` times ten to `k` compares with `n` quarters as the product of `d` and the first factor with
the product of `n` and the second. -/
def factors (i : Interval) (k : Int) : Nat × Nat :=
  (Nat.pow 10 k.toNat * Nat.pow 2 (-i.unit).toNat,
    Nat.pow 2 i.unit.toNat * Nat.pow 10 (-k).toNat)

def admits (i : Interval) (k : Int) (d : Nat) : Bool :=
  let (a, b) := i.factors k
  if i.closed then i.low * b ≤ d * a && d * a ≤ i.high * b
  else i.low * b < d * a && d * a < i.high * b

/-- The neighbour of the value on the grid of powers `k` that lies in the interval; of two, the
nearer. -/
def onGrid? (i : Interval) (tie : Tie) (k : Int) : Option Nat :=
  let (a, b) := i.factors k
  let below := i.value * b / a
  match i.admits k below, i.admits k (below + 1) with
  | true, true =>
    let down := i.value * b - below * a
    let up := (below + 1) * a - i.value * b
    if down < up then some below
    else if up < down then some (below + 1)
    else match tie with
      | .up => some (below + 1)
      | .toEven => some (if below % 2 = 0 then below else below + 1)
  | true, false => some below
  | false, true => some (below + 1)
  | false, false => none

def search (i : Interval) (tie : Tie) : Nat → Int → Scaled
  | 0, k => ⟨i.value * (i.factors k).2 / (i.factors k).1, k⟩
  | steps + 1, k =>
    match i.onGrid? tie k with
    | some d => ⟨d, k⟩
    | none => i.search tie steps (k - 1)

end Interval

/-- The shortest decimal of the absolute value of a finite number. The search starts above the
number's leading digit; seventeen digits always suffice. -/
def shortest (tie : Tie) (x : Binary64) : Scaled :=
  let (m, q) := x.magnitude
  if m = 0 then ⟨0, 0⟩
  else
    let leading := (Int.ofNat m.log2 + q) * 30103 / 100000
    (Interval.ofBinary64 x).search tie 22 (leading + 2)

end WorkflowEngine.Decimal
