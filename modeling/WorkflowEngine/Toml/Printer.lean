import WorkflowEngine.Json.Printer

/-!
# Writing TOML

A document of tables, an empty line between two of them. A text is written in the first form that
holds it as it is: between double quotes, between single quotes, between three double quotes,
between three single quotes. A text that fits none of them is written with escapes.
-/

namespace WorkflowEngine.Toml

inductive TextForm where
  | basic
  | literal
  | basicBlock
  | literalBlock
deriving DecidableEq

/-- A control character that has to be escaped; tabs and line ends need not be. -/
def isControl (c : Char) : Bool :=
  c != '\t' && c != '\n' && (c.toNat < 32 || c.toNat == 127)

/-- Whether a character stands more than `limit` times in a row, `seen` times just before. -/
def runsBeyond (c : Char) (limit seen : Nat) : List Char → Bool
  | [] => limit < seen
  | d :: rest => limit < seen || runsBeyond c limit (if d = c then seen + 1 else 0) rest

namespace TextForm

/-- The forms in the order in which they are tried. -/
def all : List TextForm := [basic, literal, basicBlock, literalBlock]

/-- Whether a text can be written in a form as it is. -/
def holds (cs : List Char) : TextForm → Bool
  | basic => !cs.any isControl && !cs.contains '\\' && !cs.contains '"' && !cs.contains '\n'
  | literal => !cs.any isControl && !cs.contains '\'' && !cs.contains '\n'
  | basicBlock => !cs.any isControl && !cs.contains '\\' && !runsBeyond '"' 2 0 cs
  | literalBlock => !cs.any isControl && !runsBeyond '\'' 2 0 cs

def ofText (cs : List Char) : TextForm :=
  match all.find? (holds cs) with
  | some form => form
  | none => if cs.contains '\n' then basicBlock else basic

def isBlock : TextForm → Bool
  | basicBlock | literalBlock => true
  | _ => false

def delimiter : TextForm → String
  | basic => "\""
  | literal => "'"
  | basicBlock => "\"\"\""
  | literalBlock => "'''"

end TextForm

/-- The escape of a character in a text on one line or over lines, quotes apart. -/
def escapeOf? (block : Bool) (c : Char) : Option String :=
  if c = '\t' then some "\\t"
  else if c = '\n' then if block then none else some "\\n"
  else if c = '\\' then some "\\\\"
  else if c.toNat = 8 then some "\\b"
  else if c.toNat = 12 then some "\\f"
  else if c = '\r' then some "\\r"
  else if isControl c then
    let digits := (Nat.toDigits 16 c.toNat).map Char.toUpper
    some ("\\u" ++ String.ofList (List.replicate (4 - digits.length) '0' ++ digits))
  else none

/-- A text with escapes. Over lines, up to two quotes in a row stand as they are. -/
def escaped (block : Bool) (quotes : Nat) : List Char → String
  | [] => ""
  | c :: rest =>
    if c = '"' then
      if block && quotes < 2 then "\"" ++ escaped block (quotes + 1) rest
      else "\\\"" ++ escaped block 0 rest
    else match escapeOf? block c with
      | some e => e ++ escaped block 0 rest
      | none => String.singleton c ++ escaped block 0 rest

def printText (s : String) : String :=
  let cs := s.toList
  let form := TextForm.ofText cs
  let start := if form.isBlock && cs.contains '\n' then "\n" else ""
  let inner :=
    match form with
    | .basic | .basicBlock => escaped form.isBlock 0 cs
    | .literal | .literalBlock => s
  form.delimiter ++ start ++ inner ++ form.delimiter

/-- The lines of a table. A key without a value is left out. -/
def printEntries : List (String × Json) → String
  | [] => ""
  | (_, .null) :: rest => printEntries rest
  | (key, .str s) :: rest => key ++ " = " ++ printText s ++ "\n" ++ printEntries rest
  | (key, v) :: rest => key ++ " = " ++ v.compact ++ "\n" ++ printEntries rest

/-- A document of tables with texts and whole numbers under bare keys. -/
def print (tables : List (String × List (String × Json))) : String :=
  String.intercalate "\n" (tables.map fun (name, entries) =>
    "[" ++ name ++ "]\n" ++ printEntries entries)

end WorkflowEngine.Toml
