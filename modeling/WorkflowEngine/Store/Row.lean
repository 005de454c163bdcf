import WorkflowEngine.Fault
import WorkflowEngine.Json.Reader
import WorkflowEngine.Session.Record
import WorkflowEngine.Time.Reading
import WorkflowEngine.Wire.Run

/-!
# Rows of sessions

How a table keeps a session: its state and its runs as documents, its times as texts.
-/

namespace WorkflowEngine

structure SessionRow where
  sessionId : String
  sessionName : Option String
  workflowId : String
  workflowName : String
  state : String
  runs : String
  createdAt : String
  updatedAt : String
deriving DecidableEq, Inhabited

namespace SessionRow

def ofRecord (r : SessionRecord) : SessionRow :=
  { sessionId := r.sessionId
    sessionName := r.sessionName
    workflowId := r.workflowId
    workflowName := r.workflowName
    state := r.state.toJson.compact
    runs := (Json.arr (r.runs.map WorkflowRun.encode)).compact
    createdAt := r.createdAt.rowText
    updatedAt := r.updatedAt.rowText }

def state? (row : SessionRow) : Option SessionState :=
  (Json.read? .value row.state).bind SessionState.ofJson?

def runs? (row : SessionRow) : Option (List WorkflowRun) :=
  (Json.read? (.list (.record .workflowRun)) row.runs).bind (Wire.listOf? WorkflowRun.decode?)

/-- Reads the row back. A time that cannot be read is taken to be the present. -/
def toRecord (row : SessionRow) (now : Instant) : Except Fault SessionRecord :=
  match row.state?, row.runs? with
  | some state, some runs =>
    .ok {
      sessionId := row.sessionId
      sessionName := row.sessionName
      workflowId := row.workflowId
      workflowName := row.workflowName
      state
      runs
      createdAt := (Instant.ofRowText? row.createdAt).getD now
      updatedAt := (Instant.ofRowText? row.updatedAt).getD now }
  | _, _ => .error (.json "malformed document in a stored session")

/-- Puts a row in the place of the row of its session, which keeps its time of creation, or at the
end. -/
def put (row : SessionRow) : List SessionRow → List SessionRow
  | [] => [row]
  | r :: rest =>
    if r.sessionId = row.sessionId then { row with createdAt := r.createdAt } :: rest
    else r :: put row rest

/-- The rows of a workflow, or of all, by the text of their last change, the latest first. -/
def select (workflowId : Option String) (rows : List SessionRow) : List SessionRow :=
  (rows.filter fun r => workflowId.all (· == r.workflowId)).mergeSort fun a b =>
    decide (b.updatedAt ≤ a.updatedAt)

end SessionRow

end WorkflowEngine
