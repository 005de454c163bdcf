import WorkflowEngine.CommandLine.Command
import WorkflowEngine.CommandLine.Report
import WorkflowEngine.Config.Loading
import WorkflowEngine.ContentPipeline
import WorkflowEngine.Host
import WorkflowEngine.Toml.Printer

/-!
# Running commands

What each command does to the files and stores of an engine, and what it reports.
-/

namespace WorkflowEngine.CommandLine

/-- Where a command runs: the variables that are set, and the names on the way to the folder. -/
structure Surroundings where
  environment : Environment
  folder : List String := []

namespace Surroundings

/-- What stands at a path. -/
def entry (s : Surroundings) (files : FileTree) (path : String) : Path.Entry :=
  files.entry (if Path.isAbsolute path then [] else s.folder) path

/-- The names on the way to the configuration file. -/
def locateConfig (s : Surroundings) (named : Option String) : List String :=
  Path.locate s.folder (named.getD (EngineConfig.defaultPath s.environment))

/-- The configuration in the named file. The usual file may be missing. -/
def config (s : Surroundings) (files : FileTree) (named : Option String) :
    Except Fault EngineConfig :=
  match named with
  | some path => EngineConfig.load s.environment path (s.entry files path)
  | none =>
    let path := EngineConfig.defaultPath s.environment
    EngineConfig.loadOrDefault s.environment path (s.entry files path)

/-- The file in which a table of sessions outlives the command, if there is one. -/
def tableFile? (s : Surroundings) (c : StorageSection) : Option String :=
  match c.backend with
  | .memory => none
  | .table =>
    let path := c.resolvedPath s.environment
    if path.isEmpty || path == ":memory:" then none else some path

/-- The names on the way to that file. -/
def tablePath? (s : Surroundings) (c : StorageSection) : Option (List String) :=
  (s.tableFile? c).map (Path.locate s.folder)

def openStore (s : Surroundings) (c : StorageSection) (e : Engine) :
    Except Fault (Ref Store) × Engine :=
  match s.tableFile? c with
  | some path => e.openTable s.folder path
  | none =>
    let (store, e) := e.addStore (if c.backend = .memory then .memory ∅ else .table [])
    (.ok store, e)

end Surroundings

/-- The brief of a demo that was given none. -/
def defaultBrief : String := "workflow engines in Rust"

/-- All events of a stream, up to a number of them. -/
def readEvents (stream : RunStream) : Nat → Fiber Engine (List WorkflowEvent)
  | 0 => pure []
  | n + 1 => do
    match ← stream.next with
    | none => return []
    | some event => return event :: (← readEvents stream n)

/-- Streams a run and reports its events and how it came out. -/
def streamRun (w : Workflow) (input : ExecutionInput) (e : Engine) : Report × Engine :=
  match Host.stream { engine := e } w input with
  | (.done stream, h) =>
    let start := Report.note ("[run " ++ stream.runId ++ "]")
    let work := do
      let events ← readEvents stream Host.roundLimit
      return (events, ← stream.finish)
    match h.await work with
    | (.done (events, result), h) =>
      let shown := start ++ .all (events.map fun event => .ofEvent event.kind)
      match result with
      | .ok run => (shown ++ .ofRun run, h.engine)
      | .error fault => (shown ++ .ofFault fault, h.engine)
    | (_, h) => (start ++ .failure "the run did not end", h.engine)
  | (.aborted message, h) => (.abort message, h.engine)
  | (.stuck, h) => (.failure "the run did not end", h.engine)

def runDemo (store : Ref Store) (c : EngineConfig) (message channel : String)
    (session : Option String) (e : Engine) : Report × Engine :=
  let (w, e) := ContentPipeline.workflow e
  let w : Workflow := { w.configured c with store := some store }
  let e :=
    match session with
    | some id => w.attach id e
    | none => e
  let brief := if Text.isAllBlank message then defaultBrief else message
  streamRun w ((ExecutionInput.ofMessage (.text brief)).withData "channel" (.str channel)) e

def noSession (id : String) : Report := .failure ("no session with id " ++ id)

/-- Carries out a request on stored sessions. Deleting a session that is not there is passed over in
silence. -/
def SessionCommand.run (command : SessionCommand) (store : Ref Store) (e : Engine) :
    Report × Engine :=
  match command with
  | list workflowId =>
    match e.listSessions store workflowId with
    | (.error fault, e) => (.ofFault fault, e)
    | (.ok [], e) => (.line "No sessions stored.", e)
    | (.ok records, e) => (.all (records.map .ofSession), e)
  | view id =>
    match e.readSession store id with
    | (.error fault, e) => (.ofFault fault, e)
    | (.ok (some record), e) => (.line record.encode.pretty, e)
    | (.ok none, e) => (noSession id, e)
  | rename id name =>
    match e.renameSession store id name with
    | (.error fault, e) => (.ofFault fault, e)
    | (.ok true, e) => (.line ("Renamed " ++ id ++ " to \"" ++ name ++ "\""), e)
    | (.ok false, e) => (noSession id, e)
  | delete id =>
    match e.deleteSession store id with
    | (true, e) => (.line ("Deleted " ++ id), e)
    | (false, e) => ({}, e)

/-- Works with the store of a configuration. -/
def withStore (s : Surroundings) (c : EngineConfig) (e : Engine)
    (work : Ref Store → Engine → Report × Engine) : Report × Engine :=
  match s.openStore c.storage e with
  | (.error fault, e) => (.ofFault fault, e)
  | (.ok store, e) => work store e

/-- A configuration as a document. -/
def configText (c : EngineConfig) : String :=
  let tables := c.encode.members?.getD []
  Toml.print (tables.map fun (name, table) => (name, table.members?.getD []))

def Command.run (command : Command) (s : Surroundings) (c : EngineConfig) (e : Engine) :
    Report × Engine :=
  match command with
  | demo message channel session =>
    withStore s c e fun store => runDemo store c message channel session
  | sessions command => withStore s c e command.run
  | showConfig => (.line (configText c), e)

/-- Runs the words of an invocation. -/
def run (s : Surroundings) (words : List String) (e : Engine) : Report × Engine :=
  match Invocation.read s.environment words with
  | .error usage => (usage.report, e)
  | .ok i =>
    match s.config e.files i.config with
    | .error fault => (.ofFault fault, e)
    | .ok c => i.command.run s c e

end WorkflowEngine.CommandLine
