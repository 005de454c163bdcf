import WorkflowEngine.CommandLine.Arguments
import WorkflowEngine.Event.Basic
import WorkflowEngine.Fault
import WorkflowEngine.Json.Printer
import WorkflowEngine.Session.Record
import WorkflowEngine.Wire.Run

/-!
# Reports

What a command leaves on the terminal: its results, its messages and its exit code.
-/

namespace WorkflowEngine.CommandLine

structure Report where
  code : Nat := 0
  /-- What goes to the standard output. -/
  output : String := ""
  /-- What goes to the standard error. -/
  errors : String := ""
deriving DecidableEq, Inhabited

namespace Report

/-- One report after another; the last code counts. -/
def append (a b : Report) : Report := ⟨b.code, a.output ++ b.output, a.errors ++ b.errors⟩

instance : Append Report := ⟨append⟩

def line (text : String) : Report := { output := text ++ "\n" }

def note (text : String) : Report := { errors := text ++ "\n" }

/-- A command that went wrong. -/
def failure (message : String) : Report := { code := 1, errors := "Error: " ++ message ++ "\n" }

/-- A command that was broken off. -/
def abort (message : String) : Report := { code := 101, errors := message ++ "\n" }

/-- A fault, and its cause when it only wraps one. -/
def ofFault (fault : Fault) : Report :=
  match fault with
  | .io cause | .json cause => failure (fault.message ++ "\n\nCaused by:\n    " ++ cause)
  | fault => failure fault.message

def all (reports : List Report) : Report := reports.foldl append {}

end Report

def helpText : String :=
  String.intercalate "\n"
    ["Step-based workflow execution engine", "",
     "Usage: cadence [--config <PATH>] <COMMAND>", "",
     "Commands:",
     "  demo [--channel <NAME>] [--session <ID>] [MESSAGE]...",
     "  sessions list [--workflow <ID>]",
     "  sessions show <ID>",
     "  sessions rename <ID> <NAME>",
     "  sessions delete <ID>",
     "  config"]

namespace Usage

def report : Usage → Report
  | help => .line helpText
  | version => .line "cadence 0.3.0"
  | unexpected word => wrong ("unexpected argument '" ++ word ++ "'")
  | valueMissing setting => wrong ("a value is required for '--" ++ setting ++ "'")
  | repeated setting => wrong ("'--" ++ setting ++ "' cannot be used more than once")
  | missing what => wrong ("missing " ++ what)
where
  wrong (message : String) : Report := { code := 2, errors := "error: " ++ message ++ "\n" }

end Usage

namespace Report

/-- How an event of a run is shown. Content goes to the output, all else beside it. -/
def ofEvent : EventKind → Report
  | .runStarted name => .note ("[workflow: " ++ name ++ "]")
  | .stepStarted step kind => .note ("[" ++ kind.name ++ " " ++ step ++ ": started]")
  | .stepContentDelta _ delta => { output := delta.toText }
  | .stepCompleted step true _ _ => .note ("[" ++ step ++ ": ok]")
  | .stepCompleted step false _ error =>
    .note ("[" ++ step ++ ": ERROR] " ++ error.getD "unknown error")
  | .loopIterationStarted step n limit =>
    .note ("[" ++ step ++ ": iteration " ++ toString n ++ "/" ++ toString limit ++ "]")
  | .loopIterationCompleted _ _ true => {}
  | .loopIterationCompleted step n false =>
    .note ("[" ++ step ++ ": done after " ++ toString n ++ " iterations]")
  | .parallelStarted step children =>
    .note ("[" ++ step ++ ": running " ++ String.intercalate ", " children ++ "]")
  | .parallelCompleted _ _ => {}
  | .conditionEvaluated step result =>
    .note ("[" ++ step ++ ": " ++ (if result then "true" else "false") ++ "]")
  | .routerSelected step selected => .note ("[" ++ step ++ " -> " ++ selected ++ "]")
  | .runCompleted none _ => {}
  | .runCompleted (some content) _ => .line ("\n" ++ content.toText)
  | .runCancelled => .note "[run cancelled]"
  | .runError (some step) message => .note ("[run failed at " ++ step ++ "] " ++ message)
  | .runError none message => .note ("[run failed] " ++ message)

/-- The summary of a run, and the failure that ended it. -/
def ofRun (r : WorkflowRun) : Report :=
  let summary :=
    note ("\n[" ++ r.status.name ++ " in " ++ toString r.metrics.totalSteps
      ++ " steps, session " ++ r.sessionId ++ "]")
    ++ .note r.metrics.encode.pretty
  match r.failure with
  | some f => summary ++ .failure ("step '" ++ f.stepName ++ "' failed: " ++ f.message)
  | none => summary

/-- A stored session on one line: identifier, name, workflow, number of runs, how the last run came
out, and the last change. -/
def ofSession (r : SessionRecord) : Report :=
  let last := (r.runs.getLast?.map (·.status.name)).getD "-"
  line (r.sessionId ++ "  " ++ Text.padRight 20 (r.sessionName.getD "-")
    ++ "  " ++ Text.padRight 24 r.workflowName
    ++ "  runs=" ++ Text.padRight 3 (toString r.runs.length)
    ++ " last=" ++ Text.padRight 9 last
    ++ "  " ++ r.updatedAt.minuteText)

end Report

end WorkflowEngine.CommandLine
