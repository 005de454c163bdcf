import WorkflowEngine.Event.Basic
import WorkflowEngine.Wire.Run

/-!
# Events as JSON

An event is one flat object: whose it is and when it happened, the word for its kind under `event`,
and the fields of that kind.
-/

namespace WorkflowEngine

open Wire

namespace EventKind

/-- The words for the kinds, in their order. -/
def tags : List String :=
  ["RunStarted", "RunCompleted", "RunCancelled", "RunError", "StepStarted", "StepContentDelta",
   "StepCompleted", "LoopIterationStarted", "LoopIterationCompleted", "ParallelStarted",
   "ParallelCompleted", "ConditionEvaluated", "RouterSelected"]

def encode : EventKind → Members
  | runStarted workflowName => [("event", .str "RunStarted"), ("workflow_name", .str workflowName)]
  | runCompleted content status =>
    [("event", .str "RunCompleted"), ("content", Content.encodeOption content),
     ("status", status.encode)]
  | runCancelled => [("event", .str "RunCancelled")]
  | runError stepName message =>
    [("event", .str "RunError"), ("step_name", Json.ofText? stepName), ("message", .str message)]
  | stepStarted stepName kind =>
    [("event", .str "StepStarted"), ("step_name", .str stepName), ("kind", kind.encode)]
  | stepContentDelta stepName delta =>
    [("event", .str "StepContentDelta"), ("step_name", .str stepName), ("delta", delta.toJson)]
  | stepCompleted stepName success content error =>
    [("event", .str "StepCompleted"), ("step_name", .str stepName), ("success", .bool success),
     ("content", Content.encodeOption content), ("error", Json.ofText? error)]
  | loopIterationStarted stepName iteration maxIterations =>
    [("event", .str "LoopIterationStarted"), ("step_name", .str stepName),
     ("iteration", natJson iteration), ("max_iterations", natJson maxIterations)]
  | loopIterationCompleted stepName iteration shouldContinue =>
    [("event", .str "LoopIterationCompleted"), ("step_name", .str stepName),
     ("iteration", natJson iteration), ("should_continue", .bool shouldContinue)]
  | parallelStarted stepName children =>
    [("event", .str "ParallelStarted"), ("step_name", .str stepName),
     ("children", .arr (children.map .str))]
  | parallelCompleted stepName success =>
    [("event", .str "ParallelCompleted"), ("step_name", .str stepName), ("success", .bool success)]
  | conditionEvaluated stepName result =>
    [("event", .str "ConditionEvaluated"), ("step_name", .str stepName), ("result", .bool result)]
  | routerSelected stepName selected =>
    [("event", .str "RouterSelected"), ("step_name", .str stepName), ("selected", .str selected)]

/-- The word under `event`, or the word at the place a number under `event` gives. -/
def tag? : Json → Option String
  | .str s => some s
  | v => v.word?.bind (tags[·]?)

/-- A field that must be there once. -/
def once? (ms : Members) (key : String) (read : Json → Option α) : Option α :=
  match ms.filter (·.1 == key) with
  | [(_, v)] => read v
  | _ => none

/-- A field that may be missing or null and must not be repeated. -/
def atMostOnce? (ms : Members) (key : String) (read : Json → Option α) : Option (Option α) :=
  match ms.filter (·.1 == key) with
  | [] => some none
  | [(_, v)] => nullable? read v
  | _ => none

/-- Whether a value is the payload of a word. -/
def isUnit : Json → Bool
  | .null | .obj [] => true
  | _ => false

def decode? (ms : Members) : Option EventKind := do
  let name := once? ms "step_name" Json.text?
  match ← once? ms "event" tag? with
  | "RunStarted" => return runStarted (← once? ms "workflow_name" Json.text?)
  | "RunCompleted" =>
    return runCompleted (← atMostOnce? ms "content" Content.decode?)
      (← once? ms "status" (RunStatus.decodeWith? isUnit))
  | "RunCancelled" => return runCancelled
  | "RunError" =>
    return runError (← atMostOnce? ms "step_name" Json.text?) (← once? ms "message" Json.text?)
  | "StepStarted" =>
    return stepStarted (← name) (← once? ms "kind" (ExecutorKind.decodeWith? isUnit))
  | "StepContentDelta" => return stepContentDelta (← name) (← once? ms "delta" Content.decode?)
  | "StepCompleted" =>
    return stepCompleted (← name) (← once? ms "success" Json.bool?)
      (← atMostOnce? ms "content" Content.decode?) (← atMostOnce? ms "error" Json.text?)
  | "LoopIterationStarted" =>
    return loopIterationStarted (← name) (← once? ms "iteration" Json.word?)
      (← once? ms "max_iterations" Json.word?)
  | "LoopIterationCompleted" =>
    return loopIterationCompleted (← name) (← once? ms "iteration" Json.word?)
      (← once? ms "should_continue" Json.bool?)
  | "ParallelStarted" =>
    return parallelStarted (← name) (← once? ms "children" (listOf? Json.text?))
  | "ParallelCompleted" => return parallelCompleted (← name) (← once? ms "success" Json.bool?)
  | "ConditionEvaluated" => return conditionEvaluated (← name) (← once? ms "result" Json.bool?)
  | "RouterSelected" => return routerSelected (← name) (← once? ms "selected" Json.text?)
  | _ => none

end EventKind

namespace WorkflowEvent

def encode (e : WorkflowEvent) : Json :=
  .obj ([("run_id", .str e.runId), ("session_id", .str e.sessionId),
    ("timestamp", e.timestamp.encode)] ++ e.kind.encode)

def decode? (v : Json) : Option WorkflowEvent := do
  let ms ← v.members?
  return {
    runId := ← EventKind.once? ms "run_id" Json.text?
    sessionId := ← EventKind.once? ms "session_id" Json.text?
    timestamp := ← EventKind.once? ms "timestamp" Instant.decode?
    kind := ← EventKind.decode? ms }

end WorkflowEvent

end WorkflowEngine
