import WorkflowEngine.Engine.Basic
import WorkflowEngine.Step.Input

/-!
# Scripts and executors

What an executor may ask of the run it works for. A script is the tree of its requests; it ends
with a value or a fault, or is aborted.
-/

namespace WorkflowEngine

/-- A script that emits events of type `ε` and ends with a value of type `α`. -/
inductive Script (ε α : Type) where
  | finish (a : α)
  | fail (fault : Fault)
  /-- Looks at the session state. -/
  | look (next : SessionState → Script ε α)
  /-- Changes the session state. -/
  | change (f : SessionState → SessionState) (next : Script ε α)
  | sleep (ms : Nat) (next : Script ε α)
  /-- Cancels the run. -/
  | cancel (next : Script ε α)
  /-- Asks whether the run was cancelled. -/
  | cancelled (next : Bool → Script ε α)
  | emit (event : ε) (next : Script ε α)
  /-- Counts a call and learns how many there were before. -/
  | count (tally : Ref Tally) (next : Nat → Script ε α)
  | abort (message : String)

namespace Script

def bind : Script ε α → (α → Script ε β) → Script ε β
  | finish a, k => k a
  | fail fault, _ => .fail fault
  | look next, k => .look fun s => (next s).bind k
  | change f next, k => .change f (next.bind k)
  | sleep ms next, k => .sleep ms (next.bind k)
  | cancel next, k => .cancel (next.bind k)
  | cancelled next, k => .cancelled fun b => (next b).bind k
  | emit event next, k => .emit event (next.bind k)
  | count tally next, k => .count tally fun n => (next n).bind k
  | abort message, _ => .abort message

instance : Monad (Script ε) where
  pure := finish
  bind := bind

/-- A script without events where events may be emitted. -/
def silent : Script Empty α → Script ε α
  | finish a => .finish a
  | fail fault => .fail fault
  | look next => .look fun s => (next s).silent
  | change f next => .change f next.silent
  | sleep ms next => .sleep ms next.silent
  | cancel next => .cancel next.silent
  | cancelled next => .cancelled fun b => (next b).silent
  | emit event _ => event.elim
  | count tally next => .count tally fun n => (next n).silent
  | abort message => .abort message

end Script

/-- The step an executor works for. -/
structure ExecutorContext where
  sessionId : String
  runId : String
  stepName : String

/-- Produces the content of a step. Called for a stream, it emits partial outputs first and may end
without a final one. -/
structure Executor where
  name : String
  kind : ExecutorKind := .function
  call : StepInput → ExecutorContext → Script Empty StepOutput
  stream : StepInput → ExecutorContext → Script StepOutput (Option StepOutput) :=
    fun input ctx => (call input ctx).silent.bind fun output => .finish (some output)

end WorkflowEngine
