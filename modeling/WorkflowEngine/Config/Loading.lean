import WorkflowEngine.Config.Path
import WorkflowEngine.Toml.Reader
import WorkflowEngine.Wire.Config

/-!
# Loading configurations
-/

namespace WorkflowEngine

namespace EngineConfig

/-- A list in the place of a section, without the items past the section's fields. -/
def trimSection (key : String) (v : Json) : Json :=
  match v, (Json.Record.fields .engineConfig).lookup key with
  | .arr items, some (.record r) => .arr (items.take r.fieldNames.length)
  | v, _ => v

def trim : Json → Json
  | .obj members => .obj (members.map fun (key, v) => (key, trimSection key v))
  | v => v

/-- The configuration in a document, with references to variables expanded first. -/
def ofText (env : Environment) (text : String) : Except Fault EngineConfig :=
  match (Toml.read? (env.expand text)).bind fun v => decodeWith? Toml.isEmptyPayload (trim v) with
  | none => .error .malformedConfig
  | some c => match c.fault? with
    | some fault => .error fault
    | none => .ok c

/-- The configuration at a path, given what stands there. -/
def load (env : Environment) (path : String) (entry : Path.Entry) : Except Fault EngineConfig :=
  match entry with
  | .text content => ofText env content
  | .missing | .unreadable => .error (.configNotFound path)

/-- A path where nothing stands gives the defaults. -/
def loadOrDefault (env : Environment) (path : String) (entry : Path.Entry) :
    Except Fault EngineConfig :=
  match entry with
  | .missing => .ok {}
  | entry => load env path entry

def defaultPath (env : Environment) : String := Path.expandHome env "~/.cadence/config.toml"

end EngineConfig

/-- Where the database of a configuration is. -/
def StorageSection.resolvedPath (env : Environment) (s : StorageSection) : String :=
  Path.expandHome env s.path

end WorkflowEngine
