import WorkflowEngine.Decimal.Binary64
import WorkflowEngine.KeyMap
import WorkflowEngine.Word

/-!
# JSON values

A whole number in the range of a signed or unsigned word is an integer; every other number is a
binary64. Members of an object stand in the order in which they are written.
-/

namespace WorkflowEngine

inductive Json where
  | null
  | bool (b : Bool)
  | int (n : Int)
  | float (x : Binary64)
  | str (s : String)
  | arr (items : List Json)
  | obj (members : List (String × Json))
deriving Inhabited

namespace Json

mutual

/-- Equality of values. The integer `1` and the float `1.0` differ; floats compare as numbers. -/
def same : Json → Json → Bool
  | .null, .null => true
  | .bool a, .bool b => a == b
  | .int a, .int b => a == b
  | .float a, .float b => a.same b
  | .str a, .str b => a == b
  | .arr a, .arr b => sameItems a b
  | .obj a, .obj b => sameMembers a b
  | _, _ => false

def sameItems : List Json → List Json → Bool
  | [], [] => true
  | a :: r, b :: s => a.same b && sameItems r s
  | _, _ => false

def sameMembers : List (String × Json) → List (String × Json) → Bool
  | [], [] => true
  | (k, a) :: r, (l, b) :: s => k == l && a.same b && sameMembers r s
  | _, _ => false

end

/-- The object with the entries of a map as its members. -/
def ofMap (m : KeyMap Json) : Json := .obj m.entries

def ofText? : Option String → Json
  | some s => .str s
  | none => .null

def text? : Json → Option String
  | .str s => some s
  | _ => none

def bool? : Json → Option Bool
  | .bool b => some b
  | _ => none

/-- A natural number below `limit`. -/
def natBelow? (limit : Nat) : Json → Option Nat
  | .int (.ofNat n) => if n < limit then some n else none
  | _ => none

/-- A natural number that fits in a word of 64 bits. -/
def word? (v : Json) : Option Nat := v.natBelow? Word.unsignedEnd

def number? : Json → Option Binary64
  | .int n => some (Binary64.ofInt n)
  | .float x => some x
  | _ => none

def items? : Json → Option (List Json)
  | .arr items => some items
  | _ => none

def members? : Json → Option (List (String × Json))
  | .obj members => some members
  | _ => none

/-- The member of an object under a key. -/
def member? (v : Json) (key : String) : Option Json :=
  v.members?.bind (·.lookup key)

def isNull : Json → Bool
  | .null => true
  | _ => false

end Json

end WorkflowEngine
