import WorkflowEngine.Node.Basic
import WorkflowEngine.Run.Context

/-!
# Sequences and iteration

What becomes of nodes that run one after another, each on the input that the one before hands on.
A loop runs its body until the end condition holds, the cap is reached or an iteration halts. Each
iteration starts from the input that the one before would have handed on.
-/

namespace WorkflowEngine

/-- How a sequence ended. -/
inductive Sequence where
  /-- Every node ran: the last output, the input for a node after it, and the media of all. -/
  | completed (output : StepOutput) (next : StepInput) (produced : MediaSet)
  /-- A node failed or asked to stop, with this output. -/
  | halted (output : StepOutput)
  /-- There was no node. -/
  | empty (input : StepInput)

namespace Sequence

/-- The end of a sequence whose first node gave an output without halting. -/
def after (first : StepOutput) : Sequence → Sequence
  | completed output next produced => .completed output next (first.media ++ produced)
  | halted output => .halted output
  | empty input => .completed first input first.media

/-- The output of a group. A completed group reports the last output under its own name with the
media of all; a halted one reports the output that halted it. -/
def grouped (name : String) (kind : ExecutorKind) : Sequence → StepOutput
  | completed output _ produced => { output with stepName := name, media := produced }
  | halted output => output
  | empty input => Node.passthrough name kind input

end Sequence

/-- A finished loop: its output and the output of every iteration. -/
structure LoopResult where
  output : StepOutput
  iterations : List StepOutput
  termination : LoopTermination

namespace Loop

/-- Ends a loop after some iterations. An interrupted loop keeps the names of the output that
interrupted it. -/
def finish (name : String) (output : StepOutput) (iterations : List StepOutput)
    (state : LoopState) : LoopResult :=
  let termination : LoopTermination := ⟨state, iterations.length⟩
  let output :=
    if state = .interrupted then output
    else { output with stepName := name, executorKind := .loop, executorName := name }
  { output := { output with loopTermination := some termination }, iterations, termination }

/-- Asks the end condition about the outputs so far. -/
def converged (name : String) (ends : Option (List StepOutput → Except String Bool))
    (iterations : List StepOutput) : Except Fault Bool :=
  match ends with
  | some ends => (ends iterations).mapError (.evaluator name)
  | none => .ok false

/-- One iteration, after those whose outputs are given. When it neither halts nor meets the end
condition, `otherwise` goes on with its output, the outputs so far and the next input. -/
def turn (name : String) (maxIterations : Nat)
    (ends : Option (List StepOutput → Except String Bool)) (ctx : RunContext)
    (body : StepInput → RunTask Sequence) (isLast : Bool) (done : List StepOutput)
    (input : StepInput)
    (otherwise : StepOutput → List StepOutput → StepInput → RunTask LoopResult) :
    RunTask LoopResult := do
  let iteration := done.length + 1
  ctx.checkCancelled
  ctx.emit (.loopIterationStarted name iteration maxIterations)
  match ← body input with
  | .halted output =>
    ctx.emit (.loopIterationCompleted name iteration false)
    return finish name output (done ++ [output]) .interrupted
  | .completed output next _ => conclude iteration output next
  | .empty next => conclude iteration (Node.passthrough name .loop next) next
where
  conclude (iteration : Nat) (output : StepOutput) (next : StepInput) : RunTask LoopResult := do
    let done := done ++ [output]
    let converged ← RunTask.ofResult (converged name ends done)
    ctx.emit (.loopIterationCompleted name iteration (!converged && !isLast))
    if converged then return finish name output done .converged
    else otherwise output done next

/-- Iterates with a number of iterations allowed after this one. -/
def iterate (name : String) (maxIterations : Nat)
    (ends : Option (List StepOutput → Except String Bool)) (ctx : RunContext)
    (body : StepInput → RunTask Sequence) :
    Nat → List StepOutput → StepInput → RunTask LoopResult
  | 0, done, input =>
    turn name maxIterations ends ctx body true done input fun output done _ =>
      return finish name output done .exhausted
  | left + 1, done, input =>
    turn name maxIterations ends ctx body false done input fun _ done next =>
      iterate name maxIterations ends ctx body left done next

/-- Runs a loop over a body. -/
def run (name : String) (maxIterations : Nat)
    (ends : Option (List StepOutput → Except String Bool)) (ctx : RunContext)
    (body : StepInput → RunTask Sequence) (input : StepInput) : RunTask LoopResult :=
  match maxIterations with
  | 0 => throw (.invalidWorkflow ("loop '" ++ name ++ "' must allow at least one iteration"))
  | left + 1 => iterate name maxIterations ends ctx body left [] input

end Loop

end WorkflowEngine
