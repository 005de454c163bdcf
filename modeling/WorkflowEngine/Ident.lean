/-!
# Generated identifiers

Sessions, runs and media that nobody named get an identifier in the usual grouping of 32
hexadecimal digits.
-/

namespace WorkflowEngine.Ident

/-- The identifier with a number. Numbers of up to twelve digits give different identifiers. -/
def ofNat (n : Nat) : String :=
  let digits := Nat.toDigits 16 n
  "00000000-0000-4000-8000-"
    ++ String.ofList (List.replicate (12 - digits.length) '0' ++ digits)

end WorkflowEngine.Ident
