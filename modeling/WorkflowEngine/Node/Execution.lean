import WorkflowEngine.Node.Iteration
import WorkflowEngine.Node.Join
import WorkflowEngine.Step.Execution

/-!
# Execution of nodes

A fault ends the whole run; every other failure is an output that did not succeed.
-/

namespace WorkflowEngine.Node

/-- Tells of the start and the end of a node around its work, and notes how long it took when the
output is its own. -/
def reported (n : Node) (input : StepInput) (ctx : RunContext) (work : RunTask StepOutput) :
    RunTask StepOutput := do
  ctx.checkCancelled
  ctx.note (.entered n.name input)
  ctx.emit (.stepStarted n.name n.kind)
  let started ← Fiber.time
  let output ← work
  let ended ← Fiber.time
  let adopted := !n.isLeaf && output.stepName == n.name
  let output :=
    if output.durationMs.isNone || adopted then { output with durationMs := some (ended - started) }
    else output
  ctx.note (.gave n.name output)
  ctx.emit (.stepCompleted n.name output.success output.content output.error)
  return output

mutual

/-- The work of a node itself. -/
def perform (input : StepInput) (ctx : RunContext) : Node → RunTask StepOutput
  | step s => s.execute input ctx
  | steps name _ children => do
    return (← runSequence ctx children input).grouped name .steps
  | condition name _ test children => do
    let result ← RunTask.ofResult (evaluate name test input)
    ctx.emit (.conditionEvaluated name result)
    if result then return (← runSequence ctx children input).grouped name .condition
    else return passthrough name .condition input
  | loop name _ maxIterations ends children => do
    return (← Loop.run name maxIterations ends ctx (runSequence ctx children) input).output
  | parallel name _ children => do
    let names := children.map Node.name
    ctx.emit (.parallelStarted name names)
    let results ← Fiber.all (runAll input ctx children)
    let output ← RunTask.ofResult (Join.result name names results)
    ctx.emit (.parallelCompleted name output.success)
    return output
  | router name _ select choices => do
    let choice ← RunTask.ofResult (choose name select choices input)
    ctx.emit (.routerSelected name choice.name)
    runChoice input ctx choice.name choices

/-- Runs nodes one after another until one halts. -/
def runSequence (ctx : RunContext) : List Node → StepInput → RunTask Sequence
  | [], input => return .empty input
  | n :: rest, input => do
    let output ← n.reported input ctx (perform input ctx n)
    if output.halts then return .halted output
    else return (← runSequence ctx rest (input.chain n.name output)).after output

/-- Runs of nodes on one input, for each of them. -/
def runAll (input : StepInput) (ctx : RunContext) :
    List Node → List (Fiber Engine (Except Fault StepOutput))
  | [] => []
  | n :: rest => (n.reported input ctx (perform input ctx n)).run :: runAll input ctx rest

/-- Runs the first node with a name. -/
def runChoice (input : StepInput) (ctx : RunContext) (name : String) :
    List Node → RunTask StepOutput
  | [] => throw (.routerMisconfigured "" name "")
  | n :: rest =>
    if n.name == name then n.reported input ctx (perform input ctx n)
    else runChoice input ctx name rest

end

def execute (n : Node) (input : StepInput) (ctx : RunContext) : RunTask StepOutput :=
  n.reported input ctx (perform input ctx n)

/-- Runs a loop and keeps the outputs of its iterations. -/
def executeLoop? (n : Node) (input : StepInput) (ctx : RunContext) : Option (RunTask LoopResult) :=
  match n with
  | loop name _ maxIterations ends children =>
    some (Loop.run name maxIterations ends ctx (runSequence ctx children) input)
  | _ => none

end WorkflowEngine.Node
