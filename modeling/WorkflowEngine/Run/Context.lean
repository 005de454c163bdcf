import WorkflowEngine.Config.Basic
import WorkflowEngine.Executor.Basic
import WorkflowEngine.Fiber.Basic

/-!
# Run contexts

What the nodes of a run need from it, and how they tell of their progress.
-/

namespace WorkflowEngine

structure RunContext where
  sessionId : String
  runId : String
  /-- The run's working copy of the session state. -/
  state : Ref SessionState
  token : Ref CancelToken
  feed : Option (Ref Feed) := none
  bus : Option (Ref EventBus) := none
  stepDefaults : StepSection := {}

/-- Work of a run that may end with a fault. -/
abbrev RunTask (α : Type) := ExceptT Fault (Fiber Engine) α

namespace RunTask

def ofResult (r : Except Fault α) : RunTask α := ExceptT.mk (pure r)

/-- The result of a task, be it a value or a fault. -/
def result (t : RunTask α) : RunTask (Except Fault α) := ExceptT.mk (Except.ok <$> t.run)

end RunTask

namespace RunContext

def isStreaming (ctx : RunContext) : Bool := ctx.feed.isSome

def forStep (ctx : RunContext) (stepName : String) : ExecutorContext :=
  { sessionId := ctx.sessionId, runId := ctx.runId, stepName }

def isCancelled (ctx : RunContext) : Fiber Engine Bool :=
  Fiber.look fun e => e.isCancelled ctx.token

def checkCancelled (ctx : RunContext) : RunTask Unit := do
  if ← ctx.isCancelled then throw .cancelled

def note (ctx : RunContext) (h : Happening) : Fiber Engine Unit :=
  Fiber.modify fun e => e.note ctx.runId h

/-- Dates an event and publishes it on the bus. -/
def announce (ctx : RunContext) (kind : EventKind) : Fiber Engine WorkflowEvent :=
  Fiber.update fun e =>
    let (timestamp, e) := e.readClock
    let event : WorkflowEvent := ⟨ctx.runId, ctx.sessionId, timestamp, kind⟩
    (event, e.publish ctx.bus event)

/-- Puts an event into a feed that has room. One whose reader is gone takes any number. -/
def offer? (feed : Ref Feed) (event : WorkflowEvent) (e : Engine) : Option (Unit × Engine) :=
  let f := e.feeds.get feed
  if f.closed then some ((), e)
  else if f.queue.length < f.capacity then
    some ((), { e with feeds := e.feeds.set feed { f with queue := f.queue ++ [event] } })
  else none

/-- Tells of an event. In streaming mode this waits for room in the feed, and gives up when the run
is cancelled. -/
def emit (ctx : RunContext) (kind : EventKind) : Fiber Engine Unit :=
  if ctx.feed.isNone && ctx.bus.isNone then pure ()
  else do
    let event ← ctx.announce kind
    match ctx.feed with
    | none => pure ()
    | some feed =>
      Fiber.await none fun e =>
        (offer? feed event e).or (if e.isCancelled ctx.token then some ((), e) else none)

/-- Tells of the end of the run, also after it was cancelled. -/
def emitTerminal (ctx : RunContext) (kind : EventKind) : Fiber Engine Unit := do
  let event ← ctx.announce kind
  match ctx.feed with
  | none => pure ()
  | some feed => Fiber.await none (offer? feed event)

end RunContext

/-- The time in milliseconds since the start. -/
def Fiber.time : Fiber Engine Nat := look Engine.now

/-- Waits for a number of milliseconds. -/
def Fiber.sleep (ms : Nat) : Fiber Engine Unit := do
  let due := (← time) + ms
  await (some due) fun e => if due ≤ e.now then some ((), e) else none

/-- Runs a script within a run. -/
def Script.run (ctx : RunContext) (send : ε → Fiber Engine Unit) :
    Script ε α → Fiber Engine (Except Fault α)
  | finish a => pure (.ok a)
  | fail fault => pure (.error fault)
  | look next => .act (fun e => (e.states.get ctx.state, e)) fun s => (next s).run ctx send
  | change f next =>
    .act (fun e => ((), e.setState ctx.state (f (e.states.get ctx.state)))) fun _ =>
      next.run ctx send
  | sleep ms next => do
    Fiber.sleep ms
    next.run ctx send
  | cancel next => .act (fun e => ((), e.cancel ctx.token)) fun _ => next.run ctx send
  | cancelled next =>
    .act (fun e => (e.isCancelled ctx.token, e)) fun b => (next b).run ctx send
  | emit event next => do
    send event
    next.run ctx send
  | count tally next => .act (·.count tally) fun n => (next n).run ctx send
  | abort message => .abort message

end WorkflowEngine
