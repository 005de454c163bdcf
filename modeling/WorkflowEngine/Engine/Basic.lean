import WorkflowEngine.Engine.Journal
import WorkflowEngine.Event.Bus
import WorkflowEngine.Ident
import WorkflowEngine.Store.Files

/-!
# The engine

What the runs of a program share: the time, session states, cancellation, event feeds, stores and
the outcomes of runs in the background. A journal tells what happened in each run.
-/

namespace WorkflowEngine

structure CancelToken where
  cancelled : Bool := false
deriving DecidableEq, Inhabited

/-- How often an executor was called. -/
structure Tally where
  calls : Nat := 0
deriving DecidableEq, Inhabited

/-- The way of a run's events to one reader. -/
structure Feed where
  capacity : Nat
  queue : List WorkflowEvent := []
  closed : Bool := false
deriving Inhabited

/-- The most events that a feed may be made for. -/
def Feed.maxCapacity : Nat := 0x1fffffffffffffff

/-- The session a workflow and its clones work in. -/
structure SessionSlot where
  id : String
  /-- The committed state. -/
  state : Ref SessionState
  /-- Whether the stored state was taken over. -/
  loaded : Bool := false

instance : Inhabited SessionSlot := ⟨⟨"", ⟨0⟩, false⟩⟩

instance : Inhabited EventBus := ⟨EventBus.new 256⟩

/-- The outcome of a run in the background, none while it is under way. -/
abbrev Outcome := Option (Except Fault WorkflowRun)

structure Engine where
  /-- Milliseconds since the start. -/
  now : Nat := 0
  start : Instant
  readings : Nat := 0
  generated : Nat := 0
  states : Pool SessionState := ∅
  tokens : Pool CancelToken := ∅
  feeds : Pool Feed := ∅
  buses : Pool EventBus := ∅
  slots : Pool SessionSlot := ∅
  stores : Pool Store := ∅
  files : FileTree := {}
  tallies : Pool Tally := ∅
  outcomes : Pool Outcome := ∅
  journal : Journal := []

namespace Engine

/-- Reads the clock. Of two readings the later one gives the later time. -/
def readClock (e : Engine) : Instant × Engine :=
  (e.start.addMicros (1000 * e.now + e.readings), { e with readings := e.readings + 1 })

/-- An identifier that was not given before. -/
def freshId (e : Engine) : String × Engine :=
  (Ident.ofNat e.generated, { e with generated := e.generated + 1 })

/-- Notes what happens in a run. -/
def note (e : Engine) (runId : String) (h : Happening) : Engine :=
  { e with journal := (runId, h) :: e.journal }

def addState (e : Engine) (s : SessionState) : Ref SessionState × Engine :=
  let (r, states) := e.states.add s
  (r, { e with states })

def setState (e : Engine) (r : Ref SessionState) (s : SessionState) : Engine :=
  { e with states := e.states.set r s }

def addToken (e : Engine) : Ref CancelToken × Engine :=
  let (r, tokens) := e.tokens.add {}
  (r, { e with tokens })

def isCancelled (e : Engine) (token : Ref CancelToken) : Bool := (e.tokens.get token).cancelled

def cancel (e : Engine) (token : Ref CancelToken) : Engine :=
  { e with tokens := e.tokens.set token ⟨true⟩ }

def addFeed (e : Engine) (capacity : Nat) : Ref Feed × Engine :=
  let (r, feeds) := e.feeds.add { capacity }
  (r, { e with feeds })

/-- Ends the reading of a feed. -/
def closeFeed (e : Engine) (feed : Ref Feed) : Engine :=
  { e with feeds := e.feeds.modify feed fun f => { f with closed := true, queue := [] } }

/-- Takes the next event of a feed, if there is one. -/
def takeEvent? (e : Engine) (feed : Ref Feed) : Option (WorkflowEvent × Engine) :=
  match (e.feeds.get feed).queue with
  | [] => none
  | event :: rest =>
    some (event, { e with feeds := e.feeds.modify feed fun f => { f with queue := rest } })

def addBus (e : Engine) (bus : EventBus) : Ref EventBus × Engine :=
  let (r, buses) := e.buses.add bus
  (r, { e with buses })

def publish (e : Engine) (bus : Option (Ref EventBus)) (event : WorkflowEvent) : Engine :=
  match bus with
  | some bus => { e with buses := e.buses.modify bus (·.publish event) }
  | none => e

def addStore (e : Engine) (s : Store) : Ref Store × Engine :=
  let (r, stores) := e.stores.add s
  (r, { e with stores })

/-- Opens the table of sessions at a path. -/
def openTable (e : Engine) (folder : List String) (path : String) :
    Except Fault (Ref Store) × Engine :=
  let (r, files, stores) := e.files.openTable e.stores folder path
  (r, { e with files, stores })

def addTally (e : Engine) : Ref Tally × Engine :=
  let (r, tallies) := e.tallies.add {}
  (r, { e with tallies })

/-- Counts a call and tells how many there were before. -/
def count (e : Engine) (tally : Ref Tally) : Nat × Engine :=
  ((e.tallies.get tally).calls,
    { e with tallies := e.tallies.modify tally fun t => ⟨t.calls + 1⟩ })

/-! ## Calls on stores -/

def readSession (e : Engine) (store : Ref Store) (sessionId : String) :
    Except Fault (Option SessionRecord) × Engine :=
  let (now, e) := e.readClock
  let (r, s) := (e.stores.get store).read sessionId now
  (r, { e with stores := e.stores.set store s })

def upsertSession (e : Engine) (store : Ref Store) (record : SessionRecord) :
    Except Fault SessionRecord × Engine :=
  let (r, s) := (e.stores.get store).upsert record
  (r, { e with stores := e.stores.set store s })

def deleteSession (e : Engine) (store : Ref Store) (sessionId : String) : Bool × Engine :=
  let (r, s) := (e.stores.get store).delete sessionId
  (r, { e with stores := e.stores.set store s })

def listSessions (e : Engine) (store : Ref Store) (workflowId : Option String) :
    Except Fault (List SessionRecord) × Engine :=
  let (now, e) := e.readClock
  ((e.stores.get store).list workflowId now, e)

def renameSession (e : Engine) (store : Ref Store) (sessionId name : String) :
    Except Fault Bool × Engine :=
  let (now, e) := e.readClock
  let (r, s) := (e.stores.get store).rename sessionId name now
  (r, { e with stores := e.stores.set store s })

end Engine

end WorkflowEngine
