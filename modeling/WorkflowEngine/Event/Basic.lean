import WorkflowEngine.Run.Basic

/-!
# Events

The entries of a run's log.
-/

namespace WorkflowEngine

inductive EventKind where
  | runStarted (workflowName : String)
  | runCompleted (content : Option Content) (status : RunStatus)
  | runCancelled
  | runError (stepName : Option String) (message : String)
  | stepStarted (stepName : String) (kind : ExecutorKind)
  | stepContentDelta (stepName : String) (delta : Content)
  | stepCompleted (stepName : String) (success : Bool) (content : Option Content)
      (error : Option String)
  | loopIterationStarted (stepName : String) (iteration maxIterations : Nat)
  | loopIterationCompleted (stepName : String) (iteration : Nat) (shouldContinue : Bool)
  | parallelStarted (stepName : String) (children : List String)
  | parallelCompleted (stepName : String) (success : Bool)
  | conditionEvaluated (stepName : String) (result : Bool)
  | routerSelected (stepName selected : String)

namespace EventKind

/-- The node an event belongs to. -/
def stepName? : EventKind → Option String
  | runStarted _ | runCompleted _ _ | runCancelled => none
  | runError stepName _ => stepName
  | stepStarted stepName _ | stepContentDelta stepName _ | stepCompleted stepName _ _ _
  | loopIterationStarted stepName _ _ | loopIterationCompleted stepName _ _
  | parallelStarted stepName _ | parallelCompleted stepName _
  | conditionEvaluated stepName _ | routerSelected stepName _ => some stepName

def isTerminal : EventKind → Bool
  | runCompleted _ _ | runCancelled | runError _ _ => true
  | _ => false

end EventKind

structure WorkflowEvent where
  runId : String
  sessionId : String
  timestamp : Instant
  kind : EventKind

end WorkflowEngine
