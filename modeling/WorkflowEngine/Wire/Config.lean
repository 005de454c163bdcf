import WorkflowEngine.Config.Basic
import WorkflowEngine.Wire.Field

/-!
# Configurations as JSON

A reader is told which payload stands for none after the word of a variant, since notations differ
in it.
-/

namespace WorkflowEngine

open Wire

namespace WorkflowSection

def encode (s : WorkflowSection) : Json :=
  .obj [("name", Json.ofText? s.name), ("event_buffer", natJson s.eventBuffer)]

def decode? (v : Json) : Option WorkflowSection := do
  let ms ← members? .workflowSection v
  return {
    name := ← optional? ms "name" Json.text?
    eventBuffer := ← defaulted? ms "event_buffer" 256 Json.word? }

end WorkflowSection

namespace StepSection

def encode (s : StepSection) : Json :=
  .obj [("max_retries", natJson s.maxRetries),
    ("timeout_secs", nullOr (s.timeoutSecs.map natJson))]

def decode? (v : Json) : Option StepSection := do
  let ms ← members? .stepSection v
  return {
    maxRetries := ← defaulted? ms "max_retries" 0 (Json.natBelow? 0x100000000)
    timeoutSecs := ← optional? ms "timeout_secs" Json.word? }

end StepSection

namespace StorageBackend

def all : List StorageBackend := [table, memory]

def name : StorageBackend → String
  | table => "sqlite"
  | memory => "memory"

end StorageBackend

namespace StorageSection

def encode (s : StorageSection) : Json :=
  .obj [("backend", .str s.backend.name), ("path", .str s.path)]

def decode? (bare : Json → Bool) (v : Json) : Option StorageSection := do
  let ms ← members? .storageSection v
  let fallback : StorageSection := {}
  return {
    backend := ← defaulted? ms "backend" fallback.backend
      (variant? bare StorageBackend.all StorageBackend.name)
    path := ← defaulted? ms "path" fallback.path Json.text? }

end StorageSection

namespace LogSection

def encode (s : LogSection) : Json := .obj [("filter", .str s.filter)]

def decode? (v : Json) : Option LogSection := do
  let ms ← members? .logSection v
  let fallback : LogSection := {}
  return { filter := ← defaulted? ms "filter" fallback.filter Json.text? }

end LogSection

namespace EngineConfig

def encode (c : EngineConfig) : Json :=
  .obj [("workflow", c.workflow.encode), ("step", c.step.encode), ("storage", c.storage.encode),
    ("log", c.log.encode)]

def decodeWith? (bare : Json → Bool) (v : Json) : Option EngineConfig := do
  let ms ← members? .engineConfig v
  return {
    workflow := ← defaulted? ms "workflow" {} WorkflowSection.decode?
    step := ← defaulted? ms "step" {} StepSection.decode?
    storage := ← defaulted? ms "storage" {} (StorageSection.decode? bare)
    log := ← defaulted? ms "log" {} LogSection.decode? }

def decode? : Json → Option EngineConfig := decodeWith? Json.isNull

end EngineConfig

end WorkflowEngine
