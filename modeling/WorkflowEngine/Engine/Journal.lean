import WorkflowEngine.Fault
import WorkflowEngine.Run.Basic
import WorkflowEngine.Session.State
import WorkflowEngine.Step.Input

/-!
# Journals

What happens in a run, from the moment it begins on a committed state to the moment it ends.
Nothing in a run depends on its journal.
-/

namespace WorkflowEngine

/-- What happens in a run. -/
inductive Happening where
  /-- The run begins on a committed state. -/
  | began (base : SessionState)
  /-- A node is given an input. -/
  | entered (node : String) (input : StepInput)
  /-- The executor of a step is called. -/
  | called (step : String) (input : StepInput)
  /-- A node gives an output. -/
  | gave (node : String) (output : StepOutput)
  /-- The run ends, with its outcome and its working copy of the state. -/
  | ended (fault : Option Fault) (run : WorkflowRun) (final : SessionState)

namespace Happening

/-- Whether it happens between the beginning and the end of the run. -/
def isInner : Happening → Bool
  | began _ | ended _ _ _ => false
  | _ => true

/-- Whether an executor is called. -/
def isCall : Happening → Bool
  | called _ _ => true
  | _ => false

end Happening

/-- What happened in all runs, the latest first, each with the run's identifier. -/
abbrev Journal := List (String × Happening)

namespace Journal

/-- What happened in one run, in order. -/
def of (j : Journal) (runId : String) : List Happening :=
  (j.filterMap fun (id, h) => if id = runId then some h else none).reverse

@[simp] theorem of_cons_self (j : Journal) (runId : String) (h : Happening) :
    of ((runId, h) :: j) runId = of j runId ++ [h] := by
  simp [of]

end Journal

end WorkflowEngine
