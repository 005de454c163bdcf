/-!
# Ranges of characters
-/

namespace WorkflowEngine.Text

/-- Ranges of code points, each given by its first and its last one, in increasing order. -/
abbrev Ranges := List (Nat × Nat)

def Ranges.contains (ranges : Ranges) (c : Char) : Bool :=
  ranges.any fun (first, last) => first ≤ c.toNat && c.toNat ≤ last

end WorkflowEngine.Text
