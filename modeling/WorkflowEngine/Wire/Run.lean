import WorkflowEngine.Session.Record
import WorkflowEngine.Time.Reading
import WorkflowEngine.Wire.Step

/-!
# Runs, reports and session records as JSON
-/

namespace WorkflowEngine

open Wire

namespace Instant

def encode (t : Instant) : Json := .str t.text

def decode? (v : Json) : Option Instant := v.text?.bind ofText?

end Instant

namespace RunStatus

def encode (s : RunStatus) : Json := .str s.name

def decodeWith? (bare : Json → Bool) : Json → Option RunStatus := variant? bare all name

def decode? : Json → Option RunStatus := decodeWith? Json.isNull

end RunStatus

namespace StepMetrics

mutual

def encode : StepMetrics → Json
  | ⟨stepName, kind, executorName, metrics, children, duration⟩ =>
    .obj ([("step_name", .str stepName), ("executor_type", kind.encode),
        ("executor_name", .str executorName)]
      ++ field? "metrics" metrics
      ++ (match children with
        | some ⟨entries⟩ => [("parallel_steps", .obj (encodeEntries entries))]
        | none => [])
      ++ field? "duration_ms" (duration.map natJson))

def encodeEntries : List (String × StepMetrics) → Members
  | [] => []
  | (name, m) :: rest => (name, m.encode) :: encodeEntries rest

end

/-- Reads every field but the children. -/
def ofMembers? (ms : Members) (children : Option (KeyMap StepMetrics)) : Option StepMetrics := do
  return {
    stepName := ← required? ms "step_name" Json.text?
    executorKind := ← required? ms "executor_type" ExecutorKind.decode?
    executorName := ← required? ms "executor_name" Json.text?
    metrics := ← optional? ms "metrics" some
    children := children
    durationMs := ← optional? ms "duration_ms" Json.word? }

mutual

def decode? : Json → Option StepMetrics
  | .obj members => do ofMembers? members (← childrenMember? members)
  | .arr items => do
    ofMembers? (← members? .stepMetrics (.arr items)) (← childrenItem? 4 items)
  | _ => none

def childrenMember? : Members → Option (Option (KeyMap StepMetrics))
  | [] => some none
  | (key, v) :: rest =>
    if key = "parallel_steps" then decodeChildren? v else childrenMember? rest

def childrenItem? : Nat → List Json → Option (Option (KeyMap StepMetrics))
  | _, [] => some none
  | 0, v :: _ => decodeChildren? v
  | place + 1, _ :: rest => childrenItem? place rest

def decodeChildren? : Json → Option (Option (KeyMap StepMetrics))
  | .null => some none
  | .obj members => do return some (KeyMap.ofList (← decodeEntries? members))
  | _ => none

def decodeEntries? : Members → Option (List (String × StepMetrics))
  | [] => some []
  | (name, v) :: rest => do return (name, ← decode? v) :: (← decodeEntries? rest)

end

end StepMetrics

namespace WorkflowMetrics

def encode (m : WorkflowMetrics) : Json :=
  .obj [("total_steps", natJson m.totalSteps),
    ("steps", .obj (StepMetrics.encodeEntries m.steps.entries))]

def decode? (v : Json) : Option WorkflowMetrics := do
  let ms ← members? .workflowMetrics v
  return {
    totalSteps := ← required? ms "total_steps" Json.word?
    steps := ← defaulted? ms "steps" ∅ (tableOf? StepMetrics.decode?) }

end WorkflowMetrics

namespace RunFailure

def encode (f : RunFailure) : Json :=
  .obj [("step_name", .str f.stepName), ("message", .str f.message)]

def decode? (v : Json) : Option RunFailure := do
  let ms ← members? .runFailure v
  return {
    stepName := ← required? ms "step_name" Json.text?
    message := ← required? ms "message" Json.text? }

end RunFailure

namespace WorkflowRun

def encode (r : WorkflowRun) : Json :=
  .obj [("run_id", .str r.runId), ("session_id", .str r.sessionId),
    ("workflow_id", .str r.workflowId), ("workflow_name", .str r.workflowName),
    ("status", r.status.encode), ("content", Content.encodeOption r.content),
    ("step_responses", .arr (r.stepResponses.map StepOutput.encode)),
    ("metrics", r.metrics.encode), ("media", r.media.encode),
    ("failure", nullOr (r.failure.map RunFailure.encode)), ("created_at", r.createdAt.encode)]

def decode? (v : Json) : Option WorkflowRun := do
  let ms ← members? .workflowRun v
  return {
    runId := ← required? ms "run_id" Json.text?
    sessionId := ← required? ms "session_id" Json.text?
    workflowId := ← required? ms "workflow_id" Json.text?
    workflowName := ← required? ms "workflow_name" Json.text?
    status := ← required? ms "status" RunStatus.decode?
    content := ← optional? ms "content" Content.decode?
    stepResponses := ← defaulted? ms "step_responses" [] (listOf? StepOutput.decode?)
    metrics := ← defaulted? ms "metrics" {} WorkflowMetrics.decode?
    media := ← defaulted? ms "media" {} MediaSet.decode?
    failure := ← optional? ms "failure" RunFailure.decode?
    createdAt := ← required? ms "created_at" Instant.decode? }

end WorkflowRun

namespace SessionRecord

def encode (r : SessionRecord) : Json :=
  .obj [("session_id", .str r.sessionId), ("session_name", Json.ofText? r.sessionName),
    ("workflow_id", .str r.workflowId), ("workflow_name", .str r.workflowName),
    ("session_state", r.state.toJson), ("runs", .arr (r.runs.map WorkflowRun.encode)),
    ("created_at", r.createdAt.encode), ("updated_at", r.updatedAt.encode)]

def decode? (v : Json) : Option SessionRecord := do
  let ms ← members? .sessionRecord v
  return {
    sessionId := ← required? ms "session_id" Json.text?
    sessionName := ← optional? ms "session_name" Json.text?
    workflowId := ← required? ms "workflow_id" Json.text?
    workflowName := ← required? ms "workflow_name" Json.text?
    state := ← defaulted? ms "session_state" ∅ SessionState.ofJson?
    runs := ← defaulted? ms "runs" [] (listOf? WorkflowRun.decode?)
    createdAt := ← required? ms "created_at" Instant.decode?
    updatedAt := ← required? ms "updated_at" Instant.decode? }

end SessionRecord

end WorkflowEngine
