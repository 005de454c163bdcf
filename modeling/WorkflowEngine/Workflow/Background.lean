import WorkflowEngine.Workflow.Execution

/-!
# Runs in the background

A run in the background goes on beside its caller, who may cancel it, wait for its outcome or read
its events.
-/

namespace WorkflowEngine

/-- A run that goes on by itself. -/
structure BackgroundRun where
  runId : String
  token : Ref CancelToken
  outcome : Ref Outcome

namespace BackgroundRun

def cancel (r : BackgroundRun) (e : Engine) : Engine := e.cancel r.token

def outcome? (r : BackgroundRun) (e : Engine) : Outcome := e.outcomes.get r.outcome

def isFinished (r : BackgroundRun) (e : Engine) : Bool := (r.outcome? e).isSome

/-- Waits for the outcome. -/
def wait (r : BackgroundRun) : Fiber Engine (Except Fault WorkflowRun) :=
  Fiber.await none fun e => (r.outcome? e).map (·, e)

/-- Notes the outcome of a run. -/
def settle (outcome : Ref Outcome) (result : Except Fault WorkflowRun) (e : Engine) : Engine :=
  { e with outcomes := e.outcomes.set outcome (some result) }

end BackgroundRun

/-- A run whose events are read as they happen. -/
structure RunStream extends BackgroundRun where
  feed : Ref Feed

namespace RunStream

/-- The next event, none when the run has ended and all its events were read. -/
def next (s : RunStream) : Fiber Engine (Option WorkflowEvent) :=
  Fiber.await none fun e =>
    match e.takeEvent? s.feed with
    | some (event, e) => some (some event, e)
    | none => if s.isFinished e then some (none, e) else none

/-- Reads no further and waits for the outcome. -/
def finish (s : RunStream) : Fiber Engine (Except Fault WorkflowRun) := do
  Fiber.modify fun e => e.closeFeed s.feed
  s.wait

/-- Reads no further and cancels the run. -/
def drop (s : RunStream) (e : Engine) : Engine := (e.cancel s.token).closeFeed s.feed

end RunStream

namespace Workflow

/-- Records a run that is about to begin and gives its identifier. -/
def announceRun (w : Workflow) (e : Engine) : Except Fault String × Engine :=
  match w.validate with
  | .error fault => (.error fault, e)
  | .ok () =>
    match w.prepareSession e with
    | (.error fault, e) => (.error fault, e)
    | (.ok (sessionId, committed), e) =>
      let (runId, e) := e.freshId
      let (now, e) := e.readClock
      match w.persist (.pending runId sessionId w.id w.name now) committed e with
      | (.error fault, e) => (.error fault, e)
      | (.ok (), e) => (.ok runId, e)

end Workflow

end WorkflowEngine
