import WorkflowEngine.Time.Span

/-!
# Faults

Why a step, a run or a call on the engine failed.
-/

namespace WorkflowEngine

inductive Fault where
  | executor (step message : String)
  | evaluator (node message : String)
  | routerMisconfigured (router selected choices : String)
  | timeout (step : String) (ms : Nat)
  | cancelled
  | duplicateStepName (name : String)
  | invalidWorkflow (message : String)
  | config (message : String)
  | malformedConfig
  | configNotFound (path : String)
  | database (message : String)
  | runtime (message : String)
  | io (message : String)
  | json (message : String)
deriving DecidableEq, Inhabited

namespace Fault

def message : Fault → String
  | executor step m => "Executor failed in step " ++ step ++ ": " ++ m
  | evaluator node m => "Evaluator failed in " ++ node ++ ": " ++ m
  | routerMisconfigured router selected choices =>
    "Router " ++ router ++ " selected '" ++ selected ++ "', which is not one of its choices ("
      ++ choices ++ ")"
  | timeout step ms => "Step " ++ step ++ " timed out after " ++ Span.secondsText ms ++ "s"
  | cancelled => "Workflow run cancelled"
  | duplicateStepName name => "Duplicate step name in workflow: " ++ name
  | invalidWorkflow m => "Invalid workflow: " ++ m
  | config m => "Config error: " ++ m
  | malformedConfig => "Config error: malformed document"
  | configNotFound path => "Config file not found: " ++ path
  | database m => "Database error: " ++ m
  | runtime m => "Runtime error: " ++ m
  | io m => "I/O error: " ++ m
  | json m => "JSON error: " ++ m

/-- Whether a fault ends the whole run instead of becoming a failed output. -/
def isFatal : Fault → Bool
  | evaluator _ _ | routerMisconfigured _ _ _ | cancelled | duplicateStepName _
  | invalidWorkflow _ => true
  | _ => false

/-- What a failed step reports of the fault of its last attempt. -/
def stepMessage : Fault → String
  | executor _ m => m
  | timeout _ ms => "timed out after " ++ Span.secondsText ms ++ "s"
  | fault => fault.message

/-- The node a fault names. -/
def node? : Fault → Option String
  | executor step _ | timeout step _ => some step
  | evaluator node _ => some node
  | routerMisconfigured router _ _ => some router
  | _ => none

end Fault

end WorkflowEngine
