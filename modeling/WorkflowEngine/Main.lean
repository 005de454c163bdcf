import Std.Time.DateTime.Timestamp
import WorkflowEngine.CommandLine.Execution
import WorkflowEngine.Store.Basic

/-!
# The program

Gathers the variables, files and stored sessions that an invocation needs, runs it, and keeps the
sessions.
-/

namespace WorkflowEngine.Program

/-- The text of a file, if it can be read. -/
def readText? (path : List String) : IO (Option String) := do
  try
    return some (← IO.FS.readFile ("/" ++ String.intercalate "/" path))
  catch _ => return none

/-- The values of the variables of the given names. -/
def readVariables (names : List String) : IO Environment := do
  let values ← names.mapM fun name => do return (name, ← IO.getEnv name)
  return fun name => (values.lookup name).join

/-- Adds the texts of the files that can be read among those at some paths. -/
def readFiles (paths : List (List String)) (e : Engine) : IO Engine :=
  paths.foldlM (fun e path => do
    match ← readText? path with
    | some text => return { e with files := e.files.put path (.text text) }
    | none => return e) e

/-- Turns an archive into the table that it keeps. -/
def openArchive (path : List String) (e : Engine) : Engine :=
  match (e.files.text? path).bind Store.ofArchive? with
  | some store =>
    let (store, e) := e.addStore store
    { e with files := e.files.put path (.table store) }
  | none => e

/-- The folders above a path, and the path. -/
def wayTo (path : List String) : List (List String) :=
  (List.range (path.length + 1)).map path.take

/-- Writes a table to its file. -/
def writeTable (path : List String) (e : Engine) : IO Unit := do
  match e.files.node? path with
  | some (.table store) =>
    match (e.stores.get store).archive? with
    | some text =>
      IO.FS.createDirAll ("/" ++ String.intercalate "/" path.dropLast)
      IO.FS.writeFile ("/" ++ String.intercalate "/" path) text
    | none => return
  | _ => return

/-- An engine that begins now and gives identifiers of its own. -/
def freshEngine : IO Engine := do
  let now ← Std.Time.Timestamp.now
  let generated ← IO.rand 0 0x100000000000
  let micros := now.toNanosecondsSinceUnixEpoch.toInt.toNat / 1000
  return { start := Instant.addMicros ⟨0, 0⟩ micros, generated }

/-- Runs the words of an invocation. -/
def run (words : List String) : IO CommandLine.Report := do
  let folder := Path.components (toString (← IO.currentDir))
  let e := { ← freshEngine with files := { folders := [folder] } }
  let environment ← readVariables ["HOME", "CADENCE_CONFIG"]
  let s : CommandLine.Surroundings := { environment, folder }
  match CommandLine.Invocation.read environment words with
  | .error usage => return usage.report
  | .ok i =>
    let configPath := s.locateConfig i.config
    let e ← readFiles [configPath] e
    let text := (e.files.text? configPath).getD ""
    let environment ← readVariables ("HOME" :: "CADENCE_CONFIG" :: Environment.names text)
    let s := { s with environment }
    let tablePath := ((s.config e.files i.config).toOption.bind (s.tablePath? ·.storage)).getD []
    let e := openArchive tablePath (← readFiles (wayTo tablePath) e)
    let (report, e) := CommandLine.run s words e
    writeTable tablePath e
    return report

end WorkflowEngine.Program

def main (words : List String) : IO UInt32 := do
  let report ← WorkflowEngine.Program.run words
  (← IO.getStderr).putStr report.errors
  (← IO.getStdout).putStr report.output
  return report.code.toUInt32
