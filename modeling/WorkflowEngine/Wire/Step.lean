import WorkflowEngine.Step.Input
import WorkflowEngine.Wire.Field

/-!
# Step values as JSON
-/

namespace WorkflowEngine

open Wire

namespace MediaKind

def all : List MediaKind := [image, video, audio]

def name : MediaKind → String
  | image => "image"
  | video => "video"
  | audio => "audio"

end MediaKind

namespace ExecutorKind

def encode (k : ExecutorKind) : Json := .str k.name

def decodeWith? (bare : Json → Bool) : Json → Option ExecutorKind := variant? bare all name

def decode? : Json → Option ExecutorKind := decodeWith? Json.isNull

end ExecutorKind

namespace Content

/-- Content or null. -/
def decodeOption? : Json → Option (Option Content) := nullable? decode?

def encodeOption (c : Option Content) : Json := nullOr (c.map toJson)

end Content

namespace MediaArtifact

def encode (a : MediaArtifact) : Json :=
  .obj ([("id", .str a.id), ("kind", .str a.kind.name)]
    ++ field? "url" (a.url.map .str) ++ field? "mime_type" (a.mimeType.map .str)
    ++ field? "data_base64" (a.dataBase64.map .str))

def decode? (v : Json) : Option MediaArtifact := do
  let ms ← members? .mediaArtifact v
  return {
    id := ← required? ms "id" Json.text?
    kind := ← required? ms "kind" (variant? Json.isNull MediaKind.all MediaKind.name)
    url := ← optional? ms "url" Json.text?
    mimeType := ← optional? ms "mime_type" Json.text?
    dataBase64 := ← optional? ms "data_base64" Json.text? }

end MediaArtifact

namespace MediaSet

def listField (key : String) (artifacts : List MediaArtifact) : Members :=
  if artifacts.isEmpty then [] else [(key, .arr (artifacts.map MediaArtifact.encode))]

def encode (m : MediaSet) : Json :=
  .obj (listField "images" m.images ++ listField "videos" m.videos ++ listField "audio" m.audio)

def decode? (v : Json) : Option MediaSet := do
  let ms ← members? .mediaSet v
  let read := listOf? MediaArtifact.decode?
  return {
    images := ← defaulted? ms "images" [] read
    videos := ← defaulted? ms "videos" [] read
    audio := ← defaulted? ms "audio" [] read }

end MediaSet

namespace LoopState

def all : List LoopState := [converged, exhausted, interrupted]

def name : LoopState → String
  | converged => "converged"
  | exhausted => "exhausted"
  | interrupted => "interrupted"

end LoopState

namespace LoopTermination

def encode (t : LoopTermination) : Json :=
  .obj [("state", .str t.state.name), ("iterations", natJson t.iterations)]

def decode? (v : Json) : Option LoopTermination := do
  let ms ← members? .loopTermination v
  return {
    state := ← required? ms "state" (variant? Json.isNull LoopState.all LoopState.name)
    iterations := ← required? ms "iterations" Json.word? }

end LoopTermination

namespace StepOutput

mutual

def encode : StepOutput → Json
  | ⟨stepName, stepId, kind, executorName, content, children, response, media, metrics, duration,
      success, error, stop, termination⟩ =>
    .obj ([("step_name", .str stepName)] ++ field? "step_id" (stepId.map .str)
      ++ [("executor_type", kind.encode), ("executor_name", .str executorName),
        ("content", Content.encodeOption content)]
      ++ (match children with
        | some ⟨entries⟩ => [("parallel_step_outputs", .obj (encodeEntries entries))]
        | none => [])
      ++ field? "response" response ++ [("media", media.encode)] ++ field? "metrics" metrics
      ++ field? "duration_ms" (duration.map natJson) ++ [("success", .bool success)]
      ++ field? "error" (error.map .str) ++ [("stop", .bool stop)]
      ++ field? "loop_termination" (termination.map LoopTermination.encode))

def encodeEntries : List (String × StepOutput) → Members
  | [] => []
  | (name, o) :: rest => (name, o.encode) :: encodeEntries rest

end

/-- Reads every field but the children. -/
def ofMembers? (ms : Members) (children : Option (KeyMap StepOutput)) : Option StepOutput := do
  return {
    stepName := ← defaulted? ms "step_name" "" Json.text?
    stepId := ← optional? ms "step_id" Json.text?
    executorKind := ← defaulted? ms "executor_type" .function ExecutorKind.decode?
    executorName := ← defaulted? ms "executor_name" "" Json.text?
    content := ← optional? ms "content" Content.decode?
    children := children
    response := ← optional? ms "response" some
    media := ← defaulted? ms "media" {} MediaSet.decode?
    metrics := ← optional? ms "metrics" some
    durationMs := ← optional? ms "duration_ms" Json.word?
    success := ← defaulted? ms "success" true Json.bool?
    error := ← optional? ms "error" Json.text?
    stop := ← defaulted? ms "stop" false Json.bool?
    loopTermination := ← optional? ms "loop_termination" LoopTermination.decode? }

mutual

def decode? : Json → Option StepOutput
  | .obj members => do ofMembers? members (← childrenMember? members)
  | .arr items => do
    ofMembers? (← members? .stepOutput (.arr items)) (← childrenItem? 5 items)
  | _ => none

def childrenMember? : Members → Option (Option (KeyMap StepOutput))
  | [] => some none
  | (key, v) :: rest =>
    if key = "parallel_step_outputs" then decodeChildren? v else childrenMember? rest

def childrenItem? : Nat → List Json → Option (Option (KeyMap StepOutput))
  | _, [] => some none
  | 0, v :: _ => decodeChildren? v
  | place + 1, _ :: rest => childrenItem? place rest

def decodeChildren? : Json → Option (Option (KeyMap StepOutput))
  | .null => some none
  | .obj members => do return some (KeyMap.ofList (← decodeEntries? members))
  | _ => none

def decodeEntries? : Members → Option (List (String × StepOutput))
  | [] => some []
  | (name, v) :: rest => do return (name, ← decode? v) :: (← decodeEntries? rest)

end

end StepOutput

namespace StepInput

def encode (i : StepInput) : Json :=
  .obj [("message", Content.encodeOption i.message),
    ("previous_step_content", Content.encodeOption i.previousContent),
    ("previous_step_outputs", .obj (StepOutput.encodeEntries i.previousOutputs.entries)),
    ("additional_data", Json.ofMap i.additionalData), ("media", i.media.encode)]

def decode? (v : Json) : Option StepInput := do
  let ms ← members? .stepInput v
  return {
    message := ← optional? ms "message" Content.decode?
    previousContent := ← optional? ms "previous_step_content" Content.decode?
    previousOutputs := ← defaulted? ms "previous_step_outputs" ∅ (tableOf? StepOutput.decode?)
    additionalData := ← defaulted? ms "additional_data" ∅ map?
    media := ← defaulted? ms "media" {} MediaSet.decode? }

end StepInput

namespace ExecutionInput

def encode (i : ExecutionInput) : Json :=
  .obj [("message", Content.encodeOption i.message),
    ("additional_data", Json.ofMap i.additionalData), ("media", i.media.encode)]

def decode? (v : Json) : Option ExecutionInput := do
  let ms ← members? .executionInput v
  return {
    message := ← optional? ms "message" Content.decode?
    additionalData := ← defaulted? ms "additional_data" ∅ map?
    media := ← defaulted? ms "media" {} MediaSet.decode? }

end ExecutionInput

end WorkflowEngine
