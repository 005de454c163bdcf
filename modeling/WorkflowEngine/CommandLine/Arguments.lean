/-!
# Arguments

How the words after a command are read: settings, each with a value, and operands. A value follows
the name of its setting as the next word, after an equals sign, or right after a single letter. The
word `--` ends the settings.
-/

namespace WorkflowEngine.CommandLine

/-- Why there is no command to run. -/
inductive Usage where
  | help
  | version
  | unexpected (word : String)
  | valueMissing (setting : String)
  | repeated (setting : String)
  | missing (what : String)
deriving DecidableEq, Inhabited

/-- A setting, by its long name and perhaps a letter. -/
structure Setting where
  name : String
  letter : Option Char := none
deriving DecidableEq

/-- What the first operand says of the words after it. -/
inductive OperandRule where
  /-- Settings may follow. -/
  | mixed
  /-- All that follows are operands. -/
  | trailing
  /-- It is a command with words of its own. -/
  | command
deriving DecidableEq

structure Grammar where
  settings : List Setting := []
  operands : OperandRule := .mixed
  hasVersion : Bool := false

structure Arguments where
  /-- Values by the long names of their settings. -/
  settings : List (String × String) := []
  operands : List String := []
deriving DecidableEq, Inhabited

/-- Whether a word names a setting. A dash alone does not. -/
def namesSetting (word : String) : Bool :=
  match word.toList with
  | '-' :: _ :: _ => true
  | _ => false

namespace Grammar

/-- The setting of a long name, and the value after the equals sign. -/
def ofLong (g : Grammar) (word : String) : Except Usage (Setting × Option String) :=
  let cs := (word.toList.drop 2)
  let name := String.ofList (cs.takeWhile (· != '='))
  let value :=
    match cs.dropWhile (· != '=') with
    | _ :: rest => some (String.ofList rest)
    | [] => none
  if name == "help" && value.isNone then .error .help
  else if name == "version" && g.hasVersion && value.isNone then .error .version
  else match g.settings.find? (·.name == name) with
    | some s => .ok (s, value)
    | none => .error (.unexpected word)

/-- The setting of a letter, and the value right after it or after an equals sign. -/
def ofLetter (g : Grammar) (word : String) : Except Usage (Setting × Option String) :=
  match word.toList.drop 1 with
  | [] => .error (.unexpected word)
  | c :: rest =>
    let value :=
      match rest with
      | [] => none
      | '=' :: rest => some (String.ofList rest)
      | rest => some (String.ofList rest)
    if c = 'h' then .error .help
    else if c = 'V' && g.hasVersion then .error .version
    else match g.settings.find? (·.letter == some c) with
      | some s => .ok (s, value)
      | none => .error (.unexpected word)

def setting (g : Grammar) (word : String) : Except Usage (Setting × Option String) :=
  if word.startsWith "--" then g.ofLong word else g.ofLetter word

end Grammar

namespace Arguments

/-- Gives a setting its value, once. -/
def set (a : Arguments) (s : Setting) (value : String) : Except Usage Arguments :=
  if (a.settings.lookup s.name).isSome then .error (.repeated s.name)
  else .ok { a with settings := a.settings ++ [(s.name, value)] }

def addOperands (a : Arguments) (words : List String) : Arguments :=
  { a with operands := a.operands ++ words }

def value? (a : Arguments) (name : String) : Option String := a.settings.lookup name

/-- Reads the words that are left, `pending` being a setting whose value comes next. -/
def readFrom (g : Grammar) (a : Arguments) : Option Setting → List String →
    Except Usage Arguments
  | none, [] => .ok a
  | some s, [] => .error (.valueMissing s.name)
  | some s, word :: rest => do
    if namesSetting word then throw (.valueMissing s.name)
    readFrom g (← a.set s word) none rest
  | none, word :: rest => do
    if word == "--" then
      if g.operands = .command then throw (.unexpected word)
      return a.addOperands rest
    else if namesSetting word then
      match ← g.setting word with
      | (s, some value) => readFrom g (← a.set s value) none rest
      | (s, none) => readFrom g a (some s) rest
    else if g.operands = .mixed then readFrom g (a.addOperands [word]) none rest
    else return a.addOperands (word :: rest)

def read (g : Grammar) (words : List String) : Except Usage Arguments := readFrom g {} none words

end Arguments

end WorkflowEngine.CommandLine
