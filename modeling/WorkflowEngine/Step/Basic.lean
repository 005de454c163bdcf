import WorkflowEngine.Executor.Basic

/-!
# Steps
-/

namespace WorkflowEngine

/-- A leaf of a workflow: one executor with its retries, its time limit and whether a failure is
passed over. -/
structure Step where
  name : String
  executor : Executor
  stepId : Option String := none
  description : Option String := none
  /-- Retries after the first attempt. -/
  maxRetries : Option Nat := none
  /-- The time limit of one attempt in milliseconds. -/
  timeoutMs : Option Nat := none
  skipOnFailure : Bool := false

namespace Step

/-- The output under the step's name, with its executor and duration. A failed output says so. -/
def stamp (s : Step) (output : StepOutput) (durationMs : Nat) : StepOutput :=
  { output with
    stepName := s.name
    stepId := output.stepId.or s.stepId
    executorKind := s.executor.kind
    executorName := s.executor.name
    durationMs := some durationMs
    error :=
      if output.success then output.error
      else output.error.or (some ("Step " ++ s.name ++ " failed")) }

/-- The output after all attempts failed, the last one with a message. -/
def afterFailure (s : Step) (message : String) : StepOutput :=
  if s.skipOnFailure then
    .ofText ("Step " ++ s.name ++ " failed but skipped: " ++ message)
  else .failure s.name message

end Step

end WorkflowEngine
