import WorkflowEngine.Fiber.Polling
import WorkflowEngine.Workflow.Background

/-!
# The host

Runs fibers on one engine. Each fiber in turn goes on as far as it can; when all wait, the
time jumps to the first moment at which one of them may go on.
-/

namespace WorkflowEngine

/-- A fiber that goes on beside others. When it is aborted its outcome is a fault. -/
structure HostTask where
  work : Fiber Engine Unit
  outcome : Option (Ref Outcome) := none

structure Host where
  engine : Engine
  /-- The tasks that have not ended, in the order in which they were started. -/
  tasks : List HostTask := []

/-- How a fiber on the host came out. -/
inductive Awaited (α : Type) where
  | done (a : α)
  | aborted (message : String)
  /-- It waits for something that never happens. -/
  | stuck

namespace Host

/-- The engine after a task was aborted. -/
def noteAbort (task : HostTask) (message : String) (e : Engine) : Engine :=
  match task.outcome with
  | some outcome =>
    BackgroundRun.settle outcome (.error (.runtime ("workflow task failed: " ++ message))) e
  | none => e

/-- Gives every task a turn and keeps those that have not ended. -/
def turn : List HostTask → Engine → List HostTask × Engine
  | [], e => ([], e)
  | task :: rest, e =>
    match task.work.poll e with
    | .done () e => turn rest e
    | .aborted message e => turn rest (noteAbort task message e)
    | .waiting work e =>
      let (tasks, e) := turn rest e
      ({ task with work } :: tasks, e)

/-- The first time at which a waiting fiber may go on. -/
def nextDue (main : Fiber Engine α) (tasks : List HostTask) : Option Nat :=
  tasks.foldl (fun due task => Fiber.earlier due task.work.due) main.due

/-- Runs a fiber to its end among the tasks of the host, in a number of rounds. -/
def awaitWithin : Nat → Fiber Engine α → Host → Awaited α × Host
  | 0, _, h => (.stuck, h)
  | rounds + 1, main, h =>
    match main.poll h.engine with
    | .done a engine => (.done a, { h with engine })
    | .aborted message engine => (.aborted message, { h with engine })
    | .waiting main engine =>
      let (tasks, engine) := turn h.tasks engine
      if main.canGoOn engine || tasks.any (·.work.canGoOn engine) then
        awaitWithin rounds main { engine, tasks }
      else match nextDue main tasks with
        | some due =>
          awaitWithin rounds main { engine := { engine with now := max engine.now due }, tasks }
        | none => (.stuck, { engine, tasks })

def roundLimit : Nat := 10000000

/-- Runs a fiber to its end among the tasks of the host. -/
def await (h : Host) (main : Fiber Engine α) (rounds : Nat := roundLimit) : Awaited α × Host :=
  awaitWithin rounds main h

/-- Starts a fiber beside the others. -/
def start (h : Host) (work : Fiber Engine Unit) (outcome : Option (Ref Outcome)) : Host :=
  { h with tasks := h.tasks ++ [{ work, outcome }] }

/-- Cancels a token after a number of milliseconds. -/
def cancelAfter (h : Host) (ms : Nat) (token : Ref CancelToken) : Host :=
  h.start (do Fiber.sleep ms; Fiber.modify fun e => e.cancel token) none

/-- Starts a run beside the others. -/
def startRun (h : Host) (w : Workflow) (input : ExecutionInput) (runId : String)
    (feed : Option (Ref Feed)) : BackgroundRun × Host :=
  let (token, e) := h.engine.addToken
  let (outcome, outcomes) := e.outcomes.add none
  let work := do
    let result ← w.executeRun input runId token feed
    Fiber.modify (BackgroundRun.settle outcome result)
  ({ runId, token, outcome },
    { h with engine := { e with outcomes } }.start work (some outcome))

/-- Records a run as pending and starts it in the background. -/
def spawn (h : Host) (w : Workflow) (input : ExecutionInput) : Except Fault BackgroundRun × Host :=
  match w.announceRun h.engine with
  | (.error fault, engine) => (.error fault, { h with engine })
  | (.ok runId, engine) =>
    let (run, h) := { h with engine }.startRun w input runId none
    (.ok run, h)

/-- Starts a run whose events can be read. A feed that is too large aborts the caller. -/
def stream (h : Host) (w : Workflow) (input : ExecutionInput) : Awaited RunStream × Host :=
  if Feed.maxCapacity < w.eventBuffer then (.aborted "the event buffer is too large", h)
  else
    let (feed, e) := h.engine.addFeed w.eventBuffer
    let (runId, engine) := e.freshId
    let (run, h) := { h with engine }.startRun w input runId (some feed)
    (.done { run with feed }, h)

/-- Runs a workflow to its end on a host of its own. A caller that a host runs is refused. -/
def runBlocking (hosted : Bool) (w : Workflow) (input : ExecutionInput) (e : Engine)
    (rounds : Nat := roundLimit) : Awaited (Except Fault WorkflowRun) × Engine :=
  if hosted then
    (.done (.error (.runtime
      "run_blocking cannot be called from within an async runtime; use run()")), e)
  else
    let (token, e) := e.addToken
    let (r, h) := await { engine := e } (w.run input token) rounds
    (r, h.engine)

end Host

end WorkflowEngine
