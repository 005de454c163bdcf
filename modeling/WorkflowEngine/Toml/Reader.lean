import WorkflowEngine.Decimal.Reading
import WorkflowEngine.Json.Reader
import WorkflowEngine.Toml.Tree

/-!
# Reading TOML

The grammar of TOML 1.0. Integers fit in a signed word of 64 bits, and no float overflows to positive
infinity. Values nest at most `maxNesting` levels deep, and no key has more parts than that. A date or
time becomes an object with one member of a reserved name, so that it is neither text nor number.
-/

namespace WorkflowEngine.Toml

def isSpace (c : Char) : Bool := c = ' ' || c = '\t'

def skipSpaces (cs : List Char) : List Char := cs.dropWhile isSpace

/-- A character that may stand in a comment or a literal text. -/
def isPrintable (c : Char) : Bool := c = '\t' || (32 ≤ c.toNat && c.toNat != 127)

/-- The rest after a line end, if there is one here. -/
def newline? : List Char → Option (List Char)
  | '\n' :: rest => some rest
  | '\r' :: '\n' :: rest => some rest
  | _ => none

/-- Drops a comment up to the end of its line. -/
def skipComment : List Char → List Char
  | '#' :: rest => rest.dropWhile isPrintable
  | cs => cs

/-- Spaces and a comment up to the end of a line or of the text. -/
def lineEnd? (cs : List Char) : Option (List Char) :=
  match skipComment (skipSpaces cs) with
  | [] => some []
  | rest => newline? rest

/-- Spaces, comments and line ends. -/
def skipLines : Nat → List Char → List Char
  | 0, cs => cs
  | fuel + 1, cs =>
    match skipComment (skipSpaces cs) with
    | [] => []
    | rest => match newline? rest with
      | some rest => skipLines fuel rest
      | none => rest

def hexNumber (cs : List Char) : Option Nat :=
  cs.foldlM (fun n c => do return 16 * n + (← Json.hexValue? c)) 0

/-- The character of a scalar value. -/
def scalar? (n : Nat) : Option Char :=
  if n < 0xd800 ∨ (0xe000 ≤ n ∧ n < 0x110000) then some (Char.ofNat n) else none

/-- The character written by an escape, after the backslash. -/
def escape? : List Char → Option (Char × List Char)
  | 'b' :: rest => some (Char.ofNat 8, rest)
  | 't' :: rest => some ('\t', rest)
  | 'n' :: rest => some ('\n', rest)
  | 'f' :: rest => some (Char.ofNat 12, rest)
  | 'r' :: rest => some ('\r', rest)
  | '"' :: rest => some ('"', rest)
  | '\\' :: rest => some ('\\', rest)
  | 'u' :: rest => do
    if rest.length < 4 then none
    else return (← scalar? (← hexNumber (rest.take 4)), rest.drop 4)
  | 'U' :: rest => do
    if rest.length < 8 then none
    else return (← scalar? (← hexNumber (rest.take 8)), rest.drop 8)
  | _ => none

/-- A text between single or double quotes on one line; only the latter has escapes. -/
def lineText? (quote : Char) : Nat → List Char → List Char → Option (String × List Char)
  | 0, _, _ => none
  | _ + 1, _, [] => none
  | fuel + 1, read, c :: rest =>
    if c = quote then some (String.ofList read.reverse, rest)
    else if c = '\\' ∧ quote = '"' then
      match escape? rest with
      | some (c, rest) => lineText? quote fuel (c :: read) rest
      | none => none
    else if isPrintable c then lineText? quote fuel (c :: read) rest
    else none

/-- Spaces and line ends. -/
def skipBlanks : Nat → List Char → List Char
  | 0, cs => cs
  | fuel + 1, cs =>
    match newline? (skipSpaces cs) with
    | some rest => skipBlanks fuel rest
    | none => skipSpaces cs

/-- Line ends and spaces after a backslash at the end of a line. At least one line end is needed. -/
def continuation? (cs : List Char) : Option (List Char) := do
  let rest ← newline? (skipSpaces cs)
  return skipBlanks (rest.length + 1) rest

/-- A text between three quotes. Up to two more quotes may stand right before the closing three. -/
def blockText? (quote : Char) : Nat → List Char → List Char → Option (String × List Char)
  | 0, _, _ => none
  | _ + 1, _, [] => none
  | fuel + 1, read, c :: rest =>
    if c = quote then
      let run := (c :: rest).takeWhile (· == quote)
      if 3 ≤ run.length then
        if run.length ≤ 5 then
          some (String.ofList (read.reverse ++ run.drop 3), (c :: rest).drop run.length)
        else none
      else blockText? quote fuel (run ++ read) ((c :: rest).drop run.length)
    else if c = '\\' ∧ quote = '"' then
      match escape? rest with
      | some (c, rest) => blockText? quote fuel (c :: read) rest
      | none => match continuation? rest with
        | some rest => blockText? quote fuel read rest
        | none => none
    else if isPrintable c then blockText? quote fuel (c :: read) rest
    else match newline? (c :: rest) with
      | some rest => blockText? quote fuel ('\n' :: read) rest
      | none => none

/-- A text, after its first quote. -/
def text? (quote : Char) (cs : List Char) : Option (String × List Char) :=
  match cs with
  | a :: b :: rest =>
    if a = quote ∧ b = quote then
      let rest := (newline? rest).getD rest
      blockText? quote (rest.length + 1) [] rest
    else lineText? quote (cs.length + 1) [] cs
  | _ => lineText? quote (cs.length + 1) [] cs

def isBare (c : Char) : Bool := c.isAlphanum || c = '_' || c = '-'

/-- One part of a key. -/
def keyPart? : List Char → Option (String × List Char)
  | [] => none
  | c :: rest =>
    if c = '"' ∨ c = '\'' then lineText? c (rest.length + 1) [] rest
    else
      let bare := (c :: rest).takeWhile isBare
      if bare.isEmpty then none else some (String.ofList bare, (c :: rest).drop bare.length)

/-- How deep values nest, and how many parts a key has, at most. -/
def maxNesting : Nat := 79

/-- A key of at most `parts` parts, with spaces allowed around the dots. -/
def keyOf? : (parts : Nat) → List Char → Option (List String × List Char)
  | 0, _ => none
  | parts + 1, cs => do
    let (part, rest) ← keyPart? (skipSpaces cs)
    match skipSpaces rest with
    | '.' :: rest =>
      let (path, rest) ← keyOf? parts rest
      return (part :: path, rest)
    | rest => return ([part], rest)

def key? (cs : List Char) : Option (List String × List Char) := keyOf? maxNesting cs

/-- Digits with single underscores between them. -/
def grouped? (isDigit : Char → Bool) : List Char → Option (List Char)
  | [] => none
  | [c] => if isDigit c then some [c] else none
  | c :: '_' :: rest => if isDigit c then (grouped? isDigit rest).map (c :: ·) else none
  | c :: rest => if isDigit c then (grouped? isDigit rest).map (c :: ·) else none

def baseNumber? (base : Nat) (digits : List Char) : Option Nat := do
  let ds ← grouped? (fun c => (Json.hexValue? c).any (· < base)) digits
  ds.foldlM (fun n c => do return base * n + (← Json.hexValue? c)) 0

/-- A sign in front of a numeral. -/
def sign : List Char → Option Bool × List Char
  | '+' :: rest => (some false, rest)
  | '-' :: rest => (some true, rest)
  | cs => (none, cs)

def signed (negative : Bool) (n : Nat) : Option Json :=
  if negative then (if n ≤ Word.signedEnd then some (.int (-n)) else none)
  else if n < Word.signedEnd then some (.int n) else none

def decimalDigits? (cs : List Char) : Option (List Char) := do
  let ds ← grouped? Char.isDigit cs
  if ds.head? == some '0' && ds.length != 1 then none else some ds

def integer? (cs : List Char) : Option Json :=
  match cs with
  | '0' :: 'x' :: rest => (baseNumber? 16 rest).bind (signed false)
  | '0' :: 'o' :: rest => (baseNumber? 8 rest).bind (signed false)
  | '0' :: 'b' :: rest => (baseNumber? 2 rest).bind (signed false)
  | _ => do
    let (minus, digits) := sign cs
    signed (minus.getD false) (Decimal.natOfDigits (← decimalDigits? digits))

/-- A numeral without a sign, with a point or an exponent. -/
def fractional? (cs : List Char) : Option Binary64 := do
  let (mantissa, tail) := cs.span fun c => c != 'e' && c != 'E'
  let (whole, fraction) := mantissa.span (· != '.')
  let whole ← decimalDigits? whole
  let fraction ← match fraction with
    | [] => some []
    | _ :: digits => grouped? Char.isDigit digits
  let exponent ← match tail with
    | [] => some []
    | _ :: digits =>
      let (minus, digits) := sign digits
      let digits ← grouped? Char.isDigit digits
      some (if minus.getD false then '-' :: digits else digits)
  if fraction.isEmpty && exponent.isEmpty then none
  else Decimal.ofText? (String.ofList (whole ++ '.' :: fraction
    ++ (if exponent.isEmpty then [] else 'e' :: exponent)))

/-- A float, or a word for infinity or for no number. A numeral past the largest float is refused
unless it is negative. -/
def float? (cs : List Char) : Option Json := do
  let (minus, body) := sign cs
  let negative := minus.getD false
  let x ← match String.ofList body with
    | "inf" => some Binary64.infinity
    | "nan" => some Binary64.nan
    | _ => (fractional? body).filter fun x => negative || x != Binary64.infinity
  return .float (if negative then x.neg else x)

def digitsAt? (count : Nat) (cs : List Char) : Option (Nat × List Char) :=
  let ds := cs.take count
  if ds.length = count ∧ ds.all Char.isDigit then some (Decimal.natOfDigits ds, cs.drop count)
  else none

def mark? (c : Char) : List Char → Option (List Char)
  | d :: rest => if c = d then some rest else none
  | [] => none

/-- The rest after a date. -/
def afterDate? (cs : List Char) : Option (List Char) := do
  let (year, cs) ← digitsAt? 4 cs
  let (month, cs) ← digitsAt? 2 (← mark? '-' cs)
  let (day, cs) ← digitsAt? 2 (← mark? '-' cs)
  let leap := year % 4 == 0 && (year % 100 != 0 || year % 400 == 0)
  let last := if month = 2 then (if leap then 29 else 28)
    else if month = 4 ∨ month = 6 ∨ month = 9 ∨ month = 11 then 30 else 31
  if 1 ≤ month ∧ month ≤ 12 ∧ 1 ≤ day ∧ day ≤ last then some cs else none

/-- The rest after a time of day. -/
def afterTime? (cs : List Char) : Option (List Char) := do
  let (hour, cs) ← digitsAt? 2 cs
  let (minute, cs) ← digitsAt? 2 (← mark? ':' cs)
  let (second, cs) ← digitsAt? 2 (← mark? ':' cs)
  if 23 < hour ∨ 59 < minute ∨ 60 < second then none
  else match cs with
    | '.' :: rest =>
      let digits := rest.takeWhile Char.isDigit
      if digits.isEmpty then none else some (rest.drop digits.length)
    | cs => some cs

/-- The rest after an offset, if there is one. -/
def afterOffset? : List Char → Option (List Char)
  | [] => some []
  | c :: rest =>
    if c = 'Z' ∨ c = 'z' then some rest
    else if c = '+' ∨ c = '-' then do
      let (hours, rest) ← digitsAt? 2 rest
      let (minutes, rest) ← digitsAt? 2 (← mark? ':' rest)
      if 23 < hours ∨ 59 < minutes then none else some rest
    else some (c :: rest)

/-- The rest after a date, a time, or both. -/
def afterMoment? (cs : List Char) : Option (List Char) :=
  match afterDate? cs with
  | some (c :: rest) =>
    if c = 'T' ∨ c = 't' then (afterTime? rest).bind afterOffset?
    else if c = ' ' then
      match afterTime? rest with
      | some rest => afterOffset? rest
      | none => some (c :: rest)
    else some (c :: rest)
  | some [] => some []
  | none => afterTime? cs

/-- The name of the only member of a date or time. -/
def momentKey : String := "$__toml_private_datetime"

/-- A value without structure, of which every character counts. -/
def plain? (cs : List Char) : Option Json :=
  match String.ofList cs with
  | "true" => some (.bool true)
  | "false" => some (.bool false)
  | _ => (integer? cs).or (float? cs)

def isPlain (c : Char) : Bool := isBare c || c = '+' || c = '.'

mutual

/-- A value, with `depth` levels of nesting left. -/
def value? (depth : Nat) : Nat → List Char → Option (Json × List Char)
  | 0, _ => none
  | fuel + 1, cs =>
    match cs with
    | [] => none
    | '"' :: rest => do
      let (s, rest) ← text? '"' rest
      return (.str s, rest)
    | '\'' :: rest => do
      let (s, rest) ← text? '\'' rest
      return (.str s, rest)
    | '[' :: rest => if depth = 0 then none else array? (depth - 1) [] fuel rest
    | '\x7b' :: rest =>
      if depth = 0 then none
      else match skipSpaces rest with
        | '\x7d' :: rest => some (.obj [], rest)
        | rest => inline? (depth - 1) [] fuel rest
    | cs =>
      match afterMoment? cs with
      | some rest =>
        some (.obj [(momentKey, .str (String.ofList (cs.take (cs.length - rest.length))))], rest)
      | none =>
        let token := cs.takeWhile isPlain
        (plain? token).map fun v => (v, cs.drop token.length)
termination_by structural fuel => fuel

/-- The items of an array after those read so far, which stand latest first. -/
def array? (depth : Nat) (items : List Json) : Nat → List Char → Option (Json × List Char)
  | 0, _ => none
  | fuel + 1, cs =>
    match skipLines (cs.length + 1) cs with
    | ']' :: rest => some (.arr items.reverse, rest)
    | rest => do
      let (v, rest) ← value? depth fuel rest
      match skipLines (rest.length + 1) rest with
      | ',' :: rest => array? depth (v :: items) fuel rest
      | ']' :: rest => return (.arr (v :: items).reverse, rest)
      | _ => none
termination_by structural fuel => fuel

/-- The pairs of an inline table after those read so far. -/
def inline? (depth : Nat) (entries : Entries) : Nat → List Char → Option (Json × List Char)
  | 0, _ => none
  | fuel + 1, cs => do
    let (path, rest) ← key? cs
    let rest ← mark? '=' (skipSpaces rest)
    let (v, rest) ← value? depth fuel (skipSpaces rest)
    let entries ← setKey v path entries
    match skipSpaces rest with
    | ',' :: rest => inline? depth entries fuel rest
    | '\x7d' :: rest => return (.obj (toMembers entries), rest)
    | _ => none
termination_by structural fuel => fuel

end

/-- A key, an equals sign and a value. -/
def pair? (cs : List Char) : Option (Statement × List Char) := do
  let (path, rest) ← key? cs
  let rest ← mark? '=' (skipSpaces rest)
  let rest := skipSpaces rest
  let (v, rest) ← value? maxNesting (2 * rest.length + 2) rest
  return (.pair path v, rest)

/-- One statement, which must stand alone on its line. -/
def statement? (cs : List Char) : Option (Statement × List Char) := do
  let (s, rest) ← match cs with
    | '[' :: '[' :: rest => do
      let (path, rest) ← key? rest
      let rest ← mark? ']' (← mark? ']' (skipSpaces rest))
      some (Statement.nextHeader path, rest)
    | '[' :: rest => do
      let (path, rest) ← key? rest
      let rest ← mark? ']' (skipSpaces rest)
      some (Statement.header path, rest)
    | _ => pair? cs
  return (s, ← lineEnd? rest)

def statements? : Nat → List Char → Option (List Statement)
  | 0, _ => none
  | fuel + 1, cs =>
    match skipLines (cs.length + 1) cs with
    | [] => some []
    | rest => do
      let (s, rest) ← statement? rest
      return s :: (← statements? fuel rest)

/-- The value of a document, an object of its tables and keys. -/
def read? (text : String) : Option Json := do
  let cs := match text.toList with
    | c :: rest => if c = '\ufeff' then rest else c :: rest
    | [] => []
  let root ← run [] [] (← statements? (cs.length + 1) cs)
  return .obj (toMembers root)

/-- Whether a value is the empty payload of a variant. -/
def isEmptyPayload : Json → Bool
  | .arr [] | .obj [] => true
  | _ => false

end WorkflowEngine.Toml
