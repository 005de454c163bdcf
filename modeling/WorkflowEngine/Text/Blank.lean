/-!
# Blanks

The characters with the property White_Space, and what is cut at them.
-/

namespace WorkflowEngine.Text

def isBlank (c : Char) : Bool :=
  let n := c.toNat
  (9 ≤ n && n ≤ 13) || n == 0x20 || n == 0x85 || n == 0xa0 || n == 0x1680
    || (0x2000 ≤ n && n ≤ 0x200a) || n == 0x2028 || n == 0x2029 || n == 0x202f || n == 0x205f
    || n == 0x3000

def trimLeft (cs : List Char) : List Char := cs.dropWhile isBlank

/-- A text without the blanks at its ends. -/
def trim (s : String) : String :=
  String.ofList (trimLeft (trimLeft s.toList).reverse).reverse

def isAllBlank (s : String) : Bool := s.toList.all isBlank

/-- Prepends a character to the first word of a list of words. -/
def consFirst (c : Char) : List (List Char) → List (List Char)
  | [] => [[c]]
  | w :: rest => (c :: w) :: rest

/-- Pieces between the characters that satisfy `sep`, empty ones too. -/
def splitWhere (sep : Char → Bool) : List Char → List (List Char)
  | [] => [[]]
  | c :: rest => if sep c then [] :: splitWhere sep rest else consFirst c (splitWhere sep rest)

/-- The words between blanks. -/
def words (s : String) : List String :=
  ((splitWhere isBlank s.toList).filter (!·.isEmpty)).map String.ofList

/-- A line without the carriage return at its end. -/
def dropReturn (cs : List Char) : List Char :=
  match cs.reverse with
  | '\r' :: rest => rest.reverse
  | _ => cs

/-- The lines of a text. A line feed ends a line, with a carriage return before it or not; nothing
after the last one is no line. -/
def lines (s : String) : List String :=
  match (splitWhere (· == '\n') s.toList).reverse with
  | [] => []
  | last :: rest =>
    let ended := rest.reverse.map fun l => String.ofList (dropReturn l)
    if last.isEmpty then ended else ended ++ [String.ofList last]

/-- How many times a nonempty text occurs without overlaps, found from the left. -/
def occurrences (part : List Char) : Nat → List Char → Nat
  | 0, _ => 0
  | _ + 1, [] => 0
  | fuel + 1, c :: rest =>
    if part.isPrefixOf (c :: rest) then occurrences part fuel ((c :: rest).drop part.length) + 1
    else occurrences part fuel rest

def countOf (part s : String) : Nat := occurrences part.toList (s.length + 1) s.toList

/-- Whether a text occurs in another. -/
def isInfix (part : List Char) : List Char → Bool
  | [] => part.isEmpty
  | c :: rest => part.isPrefixOf (c :: rest) || isInfix part rest

def containsText (s part : String) : Bool := isInfix part.toList s.toList

/-- A text followed by spaces up to a count of characters. -/
def padRight (width : Nat) (s : String) : String :=
  s ++ String.ofList (List.replicate (width - s.length) ' ')

/-- A number with zeros in front up to a count of digits. -/
def padZeros (width : Nat) (n : Nat) : String :=
  let digits := Nat.toDigits 10 n
  String.ofList (List.replicate (width - digits.length) '0' ++ digits)

end WorkflowEngine.Text
