import WorkflowEngine.Run.Context
import WorkflowEngine.Step.Basic

/-!
# Execution of steps

A step calls its executor until an attempt gives an output, a fault is fatal or the retries are
used up. Cancellation ends an attempt at once, the time limit when it is over.
-/

namespace WorkflowEngine.Step

/-- Forwards the content of a partial output. -/
def forward (s : Step) (ctx : RunContext) (output : StepOutput) : Fiber Engine Unit :=
  match output.content with
  | some delta => ctx.emit (.stepContentDelta s.name delta)
  | none => pure ()

/-- One call of the executor, as a stream in streaming mode. -/
def invoke (s : Step) (input : StepInput) (ctx : RunContext) : RunTask StepOutput := do
  ctx.note (.called s.name input)
  if ctx.isStreaming then
    match ← (s.executor.stream input (ctx.forStep s.name)).run ctx (s.forward ctx) with
    | some output => return output
    | none => throw (.executor s.name "executor stream ended without a final output")
  else (s.executor.call input (ctx.forStep s.name)).run ctx Empty.elim

/-- How long a limit lets work go on. One past the last second of the clock lets it go on for thirty
years. -/
def allowance (limit : Nat) : Nat :=
  if 1000 * (Word.signedEnd - 1) ≤ limit then 946080000000 else limit

/-- Ends the work with a timeout when a limit is over. -/
def limited (s : Step) (limit : Option Nat) (work : RunTask StepOutput) : RunTask StepOutput :=
  match limit with
  | none => work
  | some ms => do
    let due := (← Fiber.time) + allowance ms
    match ← Fiber.within due (fun e => due ≤ e.now) work.run with
    | some result => RunTask.ofResult result
    | none => throw (.timeout s.name ms)

/-- One attempt. Cancellation comes before everything else. -/
def attempt (s : Step) (input : StepInput) (ctx : RunContext) (limit : Option Nat) :
    RunTask StepOutput := do
  let work := s.limited limit (s.invoke input ctx)
  match ← Fiber.cancellable (fun e => e.isCancelled ctx.token) work.run with
  | some result => RunTask.ofResult result
  | none => throw .cancelled

/-- Attempts with a number of retries: the first output, or the message of the last failure. -/
def attempts (s : Step) (input : StepInput) (ctx : RunContext) (limit : Option Nat) :
    Nat → RunTask (Except String StepOutput)
  | 0 => once fun message => pure (.error message)
  | retries + 1 => once fun _ => s.attempts input ctx limit retries
where
  once (otherwise : String → RunTask (Except String StepOutput)) :
      RunTask (Except String StepOutput) := do
    ctx.checkCancelled
    match ← (s.attempt input ctx limit).result with
    | .ok output => return .ok output
    | .error fault => if fault.isFatal then throw fault else otherwise fault.stepMessage

def execute (s : Step) (input : StepInput) (ctx : RunContext) : RunTask StepOutput := do
  let retries := s.maxRetries.getD ctx.stepDefaults.maxRetries
  let limit := s.timeoutMs.or ctx.stepDefaults.timeoutMs
  let started ← Fiber.time
  let result ← s.attempts input ctx limit retries
  let ended ← Fiber.time
  return match result with
    | .ok output => s.stamp output (ended - started)
    | .error message => s.stamp (s.afterFailure message) (ended - started)

end WorkflowEngine.Step
