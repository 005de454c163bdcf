import WorkflowEngine.CommandLine.Arguments
import WorkflowEngine.Config.Path

/-!
# Commands

What the command line can be asked to do.
-/

namespace WorkflowEngine.CommandLine

/-- A request on the stored sessions. -/
inductive SessionCommand where
  /-- The sessions of one workflow or of all. -/
  | list (workflowId : Option String)
  | view (id : String)
  | rename (id name : String)
  | delete (id : String)
deriving DecidableEq, Inhabited

inductive Command where
  /-- Runs the content pipeline on a message, in a session of its own or a given one. -/
  | demo (message channel : String) (session : Option String)
  | sessions (command : SessionCommand)
  | showConfig
deriving DecidableEq, Inhabited

/-- A command and the configuration file that was named for it. -/
structure Invocation where
  config : Option String := none
  command : Command
deriving DecidableEq

/-- What help can be asked for: a command, or a group of commands. -/
inductive Topic where
  | command (name : String)
  | group (name : String) (below : List Topic)

namespace Topic

def name : Topic → String
  | command name | group name _ => name

def topics : Topic → List Topic
  | command _ => []
  | group _ below => below

/-- Help for the topic that words lead to, each word naming a topic below the one before. -/
def help (known : List Topic) : List String → Usage
  | [] => .help
  | word :: rest =>
    match known.find? (·.name == word) with
    | some topic => help topic.topics rest
    | none => .unexpected word

end Topic

namespace Command

/-- As many operands as there are names for. -/
def operands (names words : List String) : Except Usage (List String) :=
  match names.drop words.length, words.drop names.length with
  | [], [] => .ok words
  | name :: _, _ => .error (.missing name)
  | [], word :: _ => .error (.unexpected word)

def demoGrammar : Grammar :=
  { settings := [⟨"channel", none⟩, ⟨"session", some 's'⟩], operands := .trailing }

def readDemo (words : List String) : Except Usage Command := do
  let a ← Arguments.read demoGrammar words
  return .demo (String.intercalate " " a.operands) ((a.value? "channel").getD "blog")
    (a.value? "session")

def readList (words : List String) : Except Usage Command := do
  let a ← Arguments.read { settings := [⟨"workflow", none⟩] } words
  let _ ← operands [] a.operands
  return .sessions (.list (a.value? "workflow"))

/-- A request that names a session. -/
def readId (make : String → SessionCommand) (words : List String) : Except Usage Command := do
  let a ← Arguments.read {} words
  match ← operands ["<ID>"] a.operands with
  | id :: _ => return .sessions (make id)
  | [] => throw (.missing "<ID>")

def readRename (words : List String) : Except Usage Command := do
  let a ← Arguments.read {} words
  match ← operands ["<ID>", "<NAME>"] a.operands with
  | id :: name :: _ => return .sessions (.rename id name)
  | _ => throw (.missing "<NAME>")

/-- What a command's own words are read by. -/
abbrev Reader := List String → Except Usage Command

/-- The command among those of a table that the first operand names. The word `help` stands beside
them. -/
def choose (table : List (String × Reader)) (topics : List Topic) (a : Arguments) :
    Except Usage Command :=
  match a.operands with
  | [] => .error (.missing "<COMMAND>")
  | word :: rest =>
    if word == "help" then .error (Topic.help topics rest)
    else match table.lookup word with
      | some read => read rest
      | none => .error (.unexpected word)

def sessionTopics : List Topic :=
  [.command "list", .command "show", .command "rename", .command "delete", .command "help"]

def topics : List Topic :=
  [.command "demo", .group "sessions" sessionTopics, .command "config", .command "completions",
   .command "help"]

def readSessions (words : List String) : Except Usage Command := do
  choose
    [("list", readList), ("show", readId .view), ("rename", readRename),
     ("delete", readId .delete)]
    sessionTopics (← Arguments.read { operands := .command } words)

def readConfig (words : List String) : Except Usage Command := do
  let a ← Arguments.read {} words
  let _ ← operands [] a.operands
  return .showConfig

end Command

namespace Invocation

def grammar : Grammar :=
  { settings := [⟨"config", some 'c'⟩], operands := .command, hasVersion := true }

/-- Reads the words of an invocation. Where none of them names a configuration file, a variable
may. -/
def read (env : Environment) (words : List String) : Except Usage Invocation := do
  let a ← Arguments.read grammar words
  let command ← Command.choose
    [("demo", Command.readDemo), ("sessions", Command.readSessions),
     ("config", Command.readConfig)] Command.topics a
  let config := (a.value? "config").or (env "CADENCE_CONFIG")
  if config == some "" then throw (.valueMissing "config")
  return { config, command }

end Invocation

end WorkflowEngine.CommandLine
