/-!
# Binary64 numbers

Numbers of the IEEE double format, held by their bits, so that equality of representations and
equality of numbers stay apart.
-/

namespace WorkflowEngine

structure Binary64 where
  bits : UInt64
deriving DecidableEq, Inhabited

namespace Binary64

def toFloat (x : Binary64) : Float := Float.ofBits x.bits

def ofFloat (f : Float) : Binary64 := ⟨f.toBits⟩

def isNegative (x : Binary64) : Bool := x.bits >>> 63 == 1

/-- How many values 52 bits have. -/
def fractionCount : Nat := 0x10000000000000

/-- The eleven bits of the biased exponent. -/
def exponentBits (x : Binary64) : Nat := x.bits.toNat / fractionCount % 2048

/-- The 52 bits after the exponent. -/
def fractionBits (x : Binary64) : Nat := x.bits.toNat % fractionCount

def isFinite (x : Binary64) : Bool := x.exponentBits != 2047

def isNaN (x : Binary64) : Bool := x.exponentBits == 2047 && x.fractionBits != 0

/-- The absolute value of a finite number is the first component times two to the second. -/
def magnitude (x : Binary64) : Nat × Int :=
  if x.exponentBits = 0 then (x.fractionBits, -1074)
  else (x.fractionBits + fractionCount, (x.exponentBits : Int) - 1075)

def zero : Binary64 := ⟨0⟩

def negativeZero : Binary64 := ⟨0x8000000000000000⟩

def infinity : Binary64 := ⟨0x7ff0000000000000⟩

def nan : Binary64 := ⟨0x7ff8000000000000⟩

def neg (x : Binary64) : Binary64 := ⟨x.bits ^^^ 0x8000000000000000⟩

/-- `n` over two to the `k`, to the nearest whole number, a tie going to the even one. -/
def shiftRounded (n k : Nat) : Nat :=
  let quotient := n / Nat.pow 2 k
  let rest := 2 * (n % Nat.pow 2 k)
  if rest < Nat.pow 2 k ∨ rest = Nat.pow 2 k ∧ quotient % 2 = 0 then quotient else quotient + 1

/-- The bits of the number nearest to a positive natural number. A significand that is rounded up
to the next power of two adds one to the exponent. -/
def natBits (n : Nat) : Nat :=
  let exponent := n.log2
  let significand :=
    if exponent ≤ 52 then n * Nat.pow 2 (52 - exponent) else shiftRounded n (exponent - 52)
  min (2047 * fractionCount) ((exponent + 1022) * fractionCount + significand)

/-- The nearest number, a tie going to the even neighbour. -/
def ofInt (n : Int) : Binary64 :=
  if n = 0 then zero
  else if 0 < n then ⟨UInt64.ofNat (natBits n.natAbs)⟩
  else ⟨UInt64.ofNat (2048 * fractionCount + natBits n.natAbs)⟩

def add (x y : Binary64) : Binary64 := ofFloat (x.toFloat + y.toFloat)

def mul (x y : Binary64) : Binary64 := ofFloat (x.toFloat * y.toFloat)

def div (x y : Binary64) : Binary64 := ofFloat (x.toFloat / y.toFloat)

/-- Equality of numbers: zeros of both signs agree, and nothing equals a NaN. -/
def same (x y : Binary64) : Bool := x.toFloat == y.toFloat

def le (x y : Binary64) : Bool := x.toFloat ≤ y.toFloat

/-- `mantissa` times ten to the `exponent`, to the nearest number. -/
def ofDecimal (mantissa : Nat) (exponent : Int) : Binary64 :=
  match exponent with
  | .ofNat e => ofFloat (Float.ofScientific mantissa false e)
  | .negSucc e => ofFloat (Float.ofScientific mantissa true (e + 1))

end Binary64

end WorkflowEngine
