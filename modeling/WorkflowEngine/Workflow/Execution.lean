import WorkflowEngine.Node.Execution
import WorkflowEngine.Workflow.Session

/-!
# Execution of workflows

A run works on a copy of the committed state. What it changed is merged back when it completes;
every run that began is recorded in the store and ends with one terminal event.
-/

namespace WorkflowEngine

namespace WorkflowRun

/-- Notes the output of a node. One that did not succeed ends the run with an error. -/
def note (run : WorkflowRun) (output : StepOutput) : WorkflowRun :=
  let run :=
    { run with
      media := run.media ++ output.media
      content := output.content
      stepResponses := run.stepResponses ++ [output] }
  if output.success then run
  else
    { run with
      status := .error
      failure := some ⟨output.stepName,
        output.error.getD ("Step " ++ output.stepName ++ " failed")⟩ }

/-- Notes how the work of a run ended. -/
def conclude (run : WorkflowRun) (fault : Option Fault) : WorkflowRun :=
  let run : WorkflowRun := match fault with
    | none => if run.status = .running then { run with status := .completed } else run
    | some .cancelled => { run with status := .cancelled }
    | some fault =>
      { run with
        status := .error
        failure := some ⟨fault.node?.getD run.workflowName, fault.message⟩ }
  { run with metrics := WorkflowMetrics.ofOutputs run.stepResponses }

/-- The event that ends a run. -/
def terminalEvent (run : WorkflowRun) : EventKind :=
  match run.status with
  | .cancelled => .runCancelled
  | .error =>
    .runError (run.failure.map RunFailure.stepName) ((run.failure.map RunFailure.message).getD "")
  | status => .runCompleted run.content status

end WorkflowRun

namespace Workflow

/-- Runs nodes one after another until one halts or a fault ends the run. -/
def runNodes (ctx : RunContext) :
    List Node → StepInput → WorkflowRun → Fiber Engine (WorkflowRun × Option Fault)
  | [], _, run => pure (run, none)
  | n :: rest, input, run => do
    match ← (n.execute input ctx).run with
    | .error fault => pure (run, some fault)
    | .ok output =>
      let run := run.note output
      if output.halts then pure (run, none)
      else runNodes ctx rest (input.chain n.name output) run

/-- Runs a function unless the run is cancelled. -/
def runFunction (f : ExecutionInput → RunContext → Script EventKind Content)
    (input : ExecutionInput) (ctx : RunContext) (run : WorkflowRun) :
    Fiber Engine (WorkflowRun × Option Fault) := do
  match ← Fiber.cancellable (fun e => e.isCancelled ctx.token)
      ((f input ctx).run ctx ctx.emit) with
  | none => pure (run, some .cancelled)
  | some (.error fault) => pure (run, some fault)
  | some (.ok content) => pure ({ run with content := some content }, none)

def runPlan (w : Workflow) (input : ExecutionInput) (ctx : RunContext) (run : WorkflowRun) :
    Fiber Engine (WorkflowRun × Option Fault) :=
  match w.plan with
  | .nodes nodes => runNodes ctx nodes input.toStepInput run
  | .function f => runFunction f input ctx run

/-- The work of a run that has begun. -/
def work (w : Workflow) (input : ExecutionInput) (ctx : RunContext) (run : WorkflowRun) :
    Fiber Engine (WorkflowRun × Option Fault) := do
  ctx.emit (.runStarted w.name)
  w.runPlan input ctx run

/-- A run that begins: its context on a copy of the committed state, its first record, and the
state it starts from. -/
def beginRun (w : Workflow) (input : ExecutionInput) (runId : String) (token : Ref CancelToken)
    (feed : Option (Ref Feed)) (sessionId : String) (committed : Ref SessionState) (e : Engine) :
    (RunContext × WorkflowRun × SessionState) × Engine :=
  let base := e.states.get committed
  let e := e.note runId (.began base)
  let (state, e) := e.addState base
  let (now, e) := e.readClock
  let ctx : RunContext :=
    { sessionId, runId, state, token, feed, bus := w.bus, stepDefaults := w.stepDefaults }
  let run : WorkflowRun :=
    { WorkflowRun.pending runId sessionId w.id w.name now with
      status := .running
      media := input.media }
  let (_, e) := w.persist run committed e
  ((ctx, run, base), e)

/-- The end of a run: a completed one merges its changes, and every one is recorded. -/
def endRun (w : Workflow) (run : WorkflowRun) (fault : Option Fault)
    (state committed : Ref SessionState) (base : SessionState) (e : Engine) : Engine :=
  let final := e.states.get state
  let e :=
    if run.status = .completed then
      e.setState committed (SessionState.merge (e.states.get committed) base final)
    else e
  ((w.persist run committed e).2).note run.runId (.ended fault run final)

/-- What follows the work of a run: its end, and the word of it to those who follow the run. -/
def leave (w : Workflow) (ctx : RunContext) (committed : Ref SessionState) (base : SessionState) :
    WorkflowRun × Option Fault → Fiber Engine (Except Fault WorkflowRun)
  | (run, fault) => do
    let run := run.conclude fault
    Fiber.modify (w.endRun run fault ctx.state committed base)
    ctx.emitTerminal run.terminalEvent
    pure (.ok run)

/-- Runs a workflow. A fault means that the run never began; after that its outcome is told by the
run itself. -/
def executeRun (w : Workflow) (input : ExecutionInput) (runId : String) (token : Ref CancelToken)
    (feed : Option (Ref Feed)) : Fiber Engine (Except Fault WorkflowRun) :=
  match w.validate with
  | .error fault => pure (.error fault)
  | .ok () => do
    match ← Fiber.update w.prepareSession with
    | .error fault => pure (.error fault)
    | .ok (sessionId, committed) =>
      let (ctx, run, base) ← Fiber.update
        (w.beginRun input runId token feed sessionId committed)
      let ended ← w.work input ctx run
      w.leave ctx committed base ended

/-- Runs a workflow with a run identifier of its own. -/
def run (w : Workflow) (input : ExecutionInput) (token : Ref CancelToken) :
    Fiber Engine (Except Fault WorkflowRun) := do
  let runId ← Fiber.update Engine.freshId
  w.executeRun input runId token none

end Workflow

end WorkflowEngine
