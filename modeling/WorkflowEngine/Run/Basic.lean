import WorkflowEngine.Step.Output
import WorkflowEngine.Time.Instant

/-!
# Runs and their metrics

The statistics of a run are read off its outputs. A step keeps the payload its executor reported; a node
with children keeps theirs instead.
-/

namespace WorkflowEngine

structure StepMetrics where
  stepName : String
  executorKind : ExecutorKind
  executorName : String
  metrics : Option Json := none
  children : Option (KeyMap StepMetrics) := none
  durationMs : Option Nat := none

structure WorkflowMetrics where
  totalSteps : Nat := 0
  steps : KeyMap StepMetrics := ∅

instance : Inhabited WorkflowMetrics := ⟨{}⟩

namespace StepMetrics

def isParallel (m : StepMetrics) : Bool := m.executorKind == .parallel

mutual

def ofOutput : StepOutput → StepMetrics
  | ⟨stepName, _, kind, executorName, _, children, _, _, metrics, duration, _, _, _, _⟩ =>
    match children with
    | none => ⟨stepName, kind, executorName, metrics, none, duration⟩
    | some ⟨entries⟩ => ⟨stepName, kind, executorName, none, some ⟨ofEntries entries⟩, duration⟩

def ofEntries : List (String × StepOutput) → List (String × StepMetrics)
  | [] => []
  | (name, o) :: rest => (name, ofOutput o) :: ofEntries rest

end

end StepMetrics

/-- The report of a run. A step name that occurs twice is counted twice and keeps its later
entry. -/
def WorkflowMetrics.ofOutputs (outputs : List StepOutput) : WorkflowMetrics :=
  { totalSteps := outputs.length
    steps := KeyMap.ofList (outputs.map fun o => (o.stepName, StepMetrics.ofOutput o)) }

inductive RunStatus where
  | pending
  | running
  | completed
  | cancelled
  | error
deriving DecidableEq, Inhabited

namespace RunStatus

def all : List RunStatus := [pending, running, completed, cancelled, error]

def name : RunStatus → String
  | pending => "pending"
  | running => "running"
  | completed => "completed"
  | cancelled => "cancelled"
  | error => "error"

def isTerminal : RunStatus → Bool
  | completed | cancelled | error => true
  | _ => false

end RunStatus

/-- The first fatal failure of a run. -/
structure RunFailure where
  stepName : String
  message : String
deriving DecidableEq, Inhabited

structure WorkflowRun where
  runId : String
  sessionId : String
  workflowId : String
  workflowName : String
  status : RunStatus
  content : Option Content := none
  stepResponses : List StepOutput := []
  metrics : WorkflowMetrics := {}
  media : MediaSet := {}
  failure : Option RunFailure := none
  createdAt : Instant

def WorkflowRun.pending (runId sessionId workflowId workflowName : String) (now : Instant) :
    WorkflowRun :=
  { runId, sessionId, workflowId, workflowName, status := .pending, createdAt := now }

end WorkflowEngine
