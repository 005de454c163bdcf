import WorkflowEngine.Content
import WorkflowEngine.Media

/-!
# Step outputs
-/

namespace WorkflowEngine

/-- Who produced an output: a leaf's executor, or the kind of a composite node. -/
inductive ExecutorKind where
  | agent
  | team
  | function
  | steps
  | condition
  | loop
  | parallel
  | router
deriving DecidableEq, Inhabited

namespace ExecutorKind

def all : List ExecutorKind :=
  [agent, team, function, steps, condition, loop, parallel, router]

def name : ExecutorKind → String
  | agent => "agent"
  | team => "team"
  | function => "function"
  | steps => "steps"
  | condition => "condition"
  | loop => "loop"
  | parallel => "parallel"
  | router => "router"

/-- The name with a capital letter. -/
def title : ExecutorKind → String
  | agent => "Agent"
  | team => "Team"
  | function => "Function"
  | steps => "Steps"
  | condition => "Condition"
  | loop => "Loop"
  | parallel => "Parallel"
  | router => "Router"

end ExecutorKind

/-- How a loop ended: its end condition held, the cap was reached, or an iteration halted. -/
inductive LoopState where
  | converged
  | exhausted
  | interrupted
deriving DecidableEq, Inhabited

structure LoopTermination where
  state : LoopState
  iterations : Nat
deriving DecidableEq, Inhabited

/-- The result of one node. -/
structure StepOutput where
  stepName : String := ""
  stepId : Option String := none
  executorKind : ExecutorKind := .function
  executorName : String := ""
  content : Option Content := none
  /-- The outputs of the children by name; only a parallel node has them. -/
  children : Option (KeyMap StepOutput) := none
  response : Option Json := none
  media : MediaSet := {}
  metrics : Option Json := none
  durationMs : Option Nat := none
  success : Bool := true
  error : Option String := none
  stop : Bool := false
  loopTermination : Option LoopTermination := none

namespace StepOutput

instance : Inhabited StepOutput := ⟨{}⟩

def ofContent (c : Content) : StepOutput := { content := some c }

def ofText (s : String) : StepOutput := ofContent (.text s)

/-- A failed output; only a failed output has an error. -/
def failure (stepName error : String) : StepOutput :=
  { stepName, success := false, error := some error }

def withStop (o : StepOutput) : StepOutput := { o with stop := true }

def withMetrics (o : StepOutput) (m : Json) : StepOutput := { o with metrics := some m }

def withResponse (o : StepOutput) (r : Json) : StepOutput := { o with response := some r }

def withMedia (o : StepOutput) (a : MediaArtifact) : StepOutput :=
  { o with media := o.media.push a }

/-- Whether the nodes after this one are left out. -/
def halts (o : StepOutput) : Bool := o.stop || !o.success

end StepOutput

end WorkflowEngine
