import WorkflowEngine.Workflow.Basic

/-!
# Sessions of workflows

The session a workflow is in, its committed state, and how both meet the store.
-/

namespace WorkflowEngine.Workflow

def session (w : Workflow) (e : Engine) : SessionSlot := e.slots.get w.slot

def sessionId (w : Workflow) (e : Engine) : String := (w.session e).id

/-- The committed state. -/
def sessionState (w : Workflow) (e : Engine) : SessionState := e.states.get (w.session e).state

def modifySession (w : Workflow) (f : SessionSlot → SessionSlot) (e : Engine) : Engine :=
  { e with slots := e.slots.modify w.slot f }

/-- Goes over to another session. The state at hand stays and is joined by the stored one when the
next run begins. -/
def attach (w : Workflow) (sessionId : String) (e : Engine) : Engine :=
  w.modifySession (fun s => { s with id := sessionId, loaded := false }) e

def setSessionState (w : Workflow) (state : SessionState) (e : Engine) : Engine :=
  e.setState (w.session e).state state

/-- Begins a session with an empty state. Runs under way keep the state they began with. -/
def newSession (w : Workflow) (e : Engine) : String × Engine :=
  let (id, e) := e.freshId
  let (state, e) := e.addState ∅
  (id, w.modifySession (fun _ => { id, state, loaded := false }) e)

/-- What the store keeps for a session; nothing without a store. -/
def storedSession (w : Workflow) (sessionId : String) (e : Engine) :
    Except Fault (Option SessionRecord) × Engine :=
  match w.store with
  | some store => e.readSession store sessionId
  | none => (.ok none, e)

/-- The session and the place of its committed state. Before the first run the stored entries are
added, which go before those at hand. -/
def prepareSession (w : Workflow) (e : Engine) :
    Except Fault (String × Ref SessionState) × Engine :=
  let s := w.session e
  if s.loaded then (.ok (s.id, s.state), e)
  else match w.storedSession s.id e with
    | (.error fault, e) => (.error fault, e)
    | (.ok record, e) =>
      let e := match record with
        | some r => e.setState s.state ((e.states.get s.state).insertMany r.state.entries)
        | none => e
      (.ok (s.id, s.state), w.modifySession (fun s => { s with loaded := true }) e)

/-- Writes a run and the committed state into the record of the run's session. -/
def persist (w : Workflow) (run : WorkflowRun) (committed : Ref SessionState) (e : Engine) :
    Except Fault Unit × Engine :=
  match w.store with
  | none => (.ok (), e)
  | some store =>
    match e.readSession store run.sessionId with
    | (.error fault, e) => (.error fault, e)
    | (.ok found, e) =>
      let (now, e) := e.readClock
      let record := found.getD (SessionRecord.new run.sessionId w.id w.name now)
      let record :=
        { record with workflowName := w.name, state := e.states.get committed }
      let (now, e) := e.readClock
      let (r, e) := e.upsertSession store (record.upsertRun run now)
      (r.map fun _ => (), e)

/-- A run of the current session in the store. -/
def run? (w : Workflow) (runId : String) (e : Engine) :
    Except Fault (Option WorkflowRun) × Engine :=
  let (found, e) := w.storedSession (w.sessionId e) e
  (found.map fun r => r.bind (·.run? runId), e)

end WorkflowEngine.Workflow
