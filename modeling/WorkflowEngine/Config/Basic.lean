import WorkflowEngine.Fault

/-!
# Configuration
-/

namespace WorkflowEngine

structure WorkflowSection where
  name : Option String := none
  /-- How many events a stream holds for its reader. -/
  eventBuffer : Nat := 256
deriving DecidableEq, Inhabited

/-- What a step falls back on when it sets no retries or time limit of its own. -/
structure StepSection where
  maxRetries : Nat := 0
  timeoutSecs : Option Nat := none
deriving DecidableEq, Inhabited

inductive StorageBackend where
  | table
  | memory
deriving DecidableEq, Inhabited

structure StorageSection where
  backend : StorageBackend := .table
  path : String := "~/.cadence/workflows.db"
deriving DecidableEq, Inhabited

structure LogSection where
  filter : String := "cadence=info,warn"
deriving DecidableEq, Inhabited

structure EngineConfig where
  workflow : WorkflowSection := {}
  step : StepSection := {}
  storage : StorageSection := {}
  log : LogSection := {}
deriving DecidableEq, Inhabited

def StepSection.timeoutMs (s : StepSection) : Option Nat := s.timeoutSecs.map (1000 * ·)

/-- The fault of a configuration that cannot be used. -/
def EngineConfig.fault? (c : EngineConfig) : Option Fault :=
  if c.workflow.eventBuffer = 0 then some (.config "workflow.event_buffer must be at least 1")
  else none

end WorkflowEngine
