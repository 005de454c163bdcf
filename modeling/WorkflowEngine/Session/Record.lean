import WorkflowEngine.Run.Basic
import WorkflowEngine.Session.State

/-!
# Session records

What a store keeps for one session: its state and the history of its runs.
-/

namespace WorkflowEngine

structure SessionRecord where
  sessionId : String
  sessionName : Option String := none
  workflowId : String
  workflowName : String
  state : SessionState := ∅
  runs : List WorkflowRun := []
  createdAt : Instant
  updatedAt : Instant

namespace SessionRecord

def new (sessionId workflowId workflowName : String) (now : Instant) : SessionRecord :=
  { sessionId, workflowId, workflowName, createdAt := now, updatedAt := now }

/-- Puts a run in the place of the first run with its id, or at the end. -/
def putRun (run : WorkflowRun) : List WorkflowRun → List WorkflowRun
  | [] => [run]
  | r :: rest => if r.runId = run.runId then run :: rest else r :: putRun run rest

def upsertRun (record : SessionRecord) (run : WorkflowRun) (now : Instant) : SessionRecord :=
  { record with runs := putRun run record.runs, updatedAt := now }

def run? (record : SessionRecord) (runId : String) : Option WorkflowRun :=
  record.runs.find? (·.runId == runId)

end SessionRecord

end WorkflowEngine
