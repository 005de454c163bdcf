import WorkflowEngine.Decimal.Layout
import WorkflowEngine.Text.Blank

/-!
# Spans of time

Texts of a number of milliseconds.
-/

namespace WorkflowEngine.Span

/-- The seconds as a number in running form. -/
def secondsText (ms : Nat) : String :=
  let whole := Binary64.ofInt (Int.ofNat (ms / 1000))
  let nanos := Binary64.ofInt (Int.ofNat (ms % 1000 * 1000000))
  Decimal.write Decimal.running (whole.add (nanos.div (Binary64.ofInt 1000000000)))

/-- Digits of a fraction without the zeros at their end. -/
def trimFraction (s : String) : String :=
  String.ofList (s.toList.reverse.dropWhile (· == '0')).reverse

/-- The largest unit that fits, with as many places as it takes. -/
def unitText (ms : Nat) : String :=
  if ms = 0 then "0ns"
  else if ms < 1000 then toString ms ++ "ms"
  else
    let fraction := trimFraction (Text.padZeros 3 (ms % 1000))
    if fraction.isEmpty then toString (ms / 1000) ++ "s"
    else toString (ms / 1000) ++ "." ++ fraction ++ "s"

end WorkflowEngine.Span
