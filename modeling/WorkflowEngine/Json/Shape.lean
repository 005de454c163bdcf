/-!
# Shapes of documents

What a reader expects at a place of a document. The shape decides what becomes of members nobody
asked for and of keys that are written twice: a record refuses a repeated field and skips unknown
ones, a plain value keeps the last of equal keys, and a table, a word and an event keep all their
members for the one who reads them.
-/

namespace WorkflowEngine.Json

/-- The records that documents are made of. -/
inductive Record where
  | mediaArtifact
  | mediaSet
  | loopTermination
  | stepInput
  | stepOutput
  | executionInput
  | stepMetrics
  | workflowMetrics
  | runFailure
  | workflowRun
  | sessionRecord
  | engineConfig
  | workflowSection
  | stepSection
  | storageSection
  | logSection

inductive Shape where
  /-- Any value. -/
  | value
  /-- A value that is passed over without being looked at. -/
  | skipped
  /-- One of a list of words, which may be written as an object. -/
  | word
  /-- An event, whose fields depend on the word for its kind. -/
  | event
  | record (r : Record)
  /-- An object with an entry of the same shape under every key. -/
  | table (entry : Shape)
  | list (item : Shape)

open Shape in
/-- The fields of a record in their order, each with its shape. -/
def Record.fields : Record → List (String × Shape)
  | .mediaArtifact =>
    [("id", value), ("kind", word), ("url", value), ("mime_type", value), ("data_base64", value)]
  | .mediaSet =>
    [("images", list (record .mediaArtifact)), ("videos", list (record .mediaArtifact)),
     ("audio", list (record .mediaArtifact))]
  | .loopTermination => [("state", word), ("iterations", value)]
  | .stepInput =>
    [("message", value), ("previous_step_content", value),
     ("previous_step_outputs", table (record .stepOutput)), ("additional_data", value),
     ("media", record .mediaSet)]
  | .stepOutput =>
    [("step_name", value), ("step_id", value), ("executor_type", word), ("executor_name", value),
     ("content", value), ("parallel_step_outputs", table (record .stepOutput)),
     ("response", value), ("media", record .mediaSet), ("metrics", value),
     ("duration_ms", value), ("success", value), ("error", value), ("stop", value),
     ("loop_termination", record .loopTermination)]
  | .executionInput =>
    [("message", value), ("additional_data", value), ("media", record .mediaSet)]
  | .stepMetrics =>
    [("step_name", value), ("executor_type", word), ("executor_name", value), ("metrics", value),
     ("parallel_steps", table (record .stepMetrics)), ("duration_ms", value)]
  | .workflowMetrics => [("total_steps", value), ("steps", table (record .stepMetrics))]
  | .runFailure => [("step_name", value), ("message", value)]
  | .workflowRun =>
    [("run_id", value), ("session_id", value), ("workflow_id", value), ("workflow_name", value),
     ("status", word), ("content", value), ("step_responses", list (record .stepOutput)),
     ("metrics", record .workflowMetrics), ("media", record .mediaSet),
     ("failure", record .runFailure), ("created_at", value)]
  | .sessionRecord =>
    [("session_id", value), ("session_name", value), ("workflow_id", value),
     ("workflow_name", value), ("session_state", value), ("runs", list (record .workflowRun)),
     ("created_at", value), ("updated_at", value)]
  | .engineConfig =>
    [("workflow", record .workflowSection), ("step", record .stepSection),
     ("storage", record .storageSection), ("log", record .logSection)]
  | .workflowSection => [("name", value), ("event_buffer", value)]
  | .stepSection => [("max_retries", value), ("timeout_secs", value)]
  | .storageSection => [("backend", word), ("path", value)]
  | .logSection => [("filter", value)]

def Record.fieldNames (r : Record) : List String := r.fields.map (·.1)

/-- The shape of a member of an object. -/
def Shape.member (s : Shape) (key : String) : Shape :=
  match s with
  | .record r => (r.fields.lookup key).getD .skipped
  | .table entry => entry
  | .event => if key = "kind" ∨ key = "status" then .word else .value
  | .skipped => .skipped
  | _ => .value

/-- The shape of the item at a place of a list. A record may be written as the list of its
fields. -/
def Shape.item (s : Shape) (index : Nat) : Shape :=
  match s with
  | .record r => ((r.fields[index]?).map (·.2)).getD .value
  | .list item => item
  | .skipped => .skipped
  | _ => .value

end WorkflowEngine.Json
