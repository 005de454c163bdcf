import WorkflowEngine.Definition.Attempt
import WorkflowEngine.Executor.Ready
import WorkflowEngine.Workflow.Basic

/-!
# Nodes in documents

Reading nodes gathers the tallies that their executors count calls on. Executors that several steps
share are read first and referred to by name.
-/

namespace WorkflowEngine

/-- A tally to be set up: the name its calls are reported under, also when there were none. -/
structure TallyEntry where
  name : String
  always : Bool

/-- What is gathered while nodes are read. -/
structure Registry where
  tallies : List TallyEntry := []
  shared : KeyMap Executor := ∅

namespace Registry

/-- The engine with the tallies of a registry. -/
def engine (r : Registry) (start : Instant) : Engine :=
  { start, tallies := ⟨r.tallies.map fun _ => {}⟩ }

/-- The calls by the names of the executors. Executors of one name are counted together. -/
def calls (r : Registry) (e : Engine) : KeyMap Nat :=
  (r.tallies.zip e.tallies.items).foldl (fun counts (entry, tally) =>
    if entry.always || tally.calls != 0 then
      counts.insert entry.name ((counts.get? entry.name).getD 0 + tally.calls)
    else counts) ∅

end Registry

/-- Reading with a registry at hand. -/
abbrev Registering (α : Type) := StateT Registry Option α

namespace Definition

def text? (v : Json) (key : String) : Option String := (v.member? key).bind Json.text?

def text (v : Json) (key : String) : String := (text? v key).getD ""

def word? (v : Json) (key : String) : Option Nat := (v.member? key).bind Json.word?

def truth (v : Json) (key : String) : Bool := ((v.member? key).bind Json.bool?).getD false

def items (v : Json) (key : String) : List Json := ((v.member? key).bind Json.items?).getD []

/-- A member that is there and not null. -/
def given? (v : Json) (key : String) : Option Json :=
  match v.member? key with
  | some .null => none
  | m => m

/-- A member that may be missing, read when it is there. -/
def optional (v : Json) (key : String) (read : Json → Option α) : Option (Option α) :=
  match given? v key with
  | some m => (read m).map some
  | none => some none

def addTally (name : String) (always : Bool) : Registering (Ref Tally) := do
  let r ← getThe Registry
  let entry : TallyEntry := { name, always }
  set { r with tallies := r.tallies ++ [entry] }
  return { index := r.tallies.length }

def kind (v : Json) : Registering ExecutorKind := do
  return (← optional v "kind" ExecutorKind.decode?).getD .function

def content (v : Json) : Registering Content := (v.member? "content").bind Content.ofJson

def attempts (v : Json) : Registering (List Attempt) :=
  (items v "attempts").mapM (m := Option) Attempt.ofJson?

/-- Reads an executor; one without a name has the name of its step. -/
def executor (stepName : String) (v : Json) : Registering Executor := do
  let name := (text? v "name").getD stepName
  match ← text? v "type" with
  | "echo" => return .echo name (← kind v)
  | "failing" => return .failing name (text v "message")
  | "counting" => return .counting name (← content v) (← addTally name true)
  | "increment" => return .increment name
  | "slow" => return .slow name ((word? v "ms").getD 0) (← content v)
  | "streaming" => return .streaming name ((items v "chunks").filterMap Json.text?)
  | "state_writer" => return .stateWriter name (text v "key") ((v.member? "value").getD .null)
  | "ref" => return ← (← get).shared.get? name
  | "fn" =>
    let attempts ← attempts v
    let calls ← addTally stepName false
    return { name := stepName, call := Attempt.call attempts calls }
  | "script" =>
    let attempts ← attempts v
    let calls ← addTally name false
    return { name, kind := ← kind v, call := Attempt.call attempts calls }
  | "stream_script" =>
    let attempts ← attempts v
    let calls ← addTally name false
    return {
      name
      kind := ← kind v
      call := Attempt.call attempts calls
      stream := Attempt.stream attempts calls }
  | _ => failure

/-- Reads executors to be shared, each under its key. -/
def share (v : Json) : Registering Unit :=
  (((v.member? "executors").bind Json.members?).getD []).forM fun (key, e) => do
    let e ← executor key e
    modify fun r => { r with shared := r.shared.insert key e }

/-- Puts a node together from its members and its children. -/
def assemble (v : Json) (children : List Node) : Registering Node := do
  let name := text v "name"
  let description := text? v "desc"
  match ← text? v "t" with
  | "step" =>
    return .step {
      name
      executor := ← executor name ((v.member? "exec").getD .null)
      stepId := text? v "id"
      description
      maxRetries := word? v "retries"
      timeoutMs := word? v "timeout_ms"
      skipOnFailure := truth v "skip" }
  | "steps" => return .steps name description children
  | "cond" =>
    let test : Test ← (v.member? "if").bind Test.ofJson?
    return .condition name description (fun input => test.eval input) children
  | "loop" =>
    let ends : Option EndTest ← optional v "until" EndTest.ofJson?
    return .loop name description ((word? v "max").getD Node.defaultMaxIterations)
      (ends.map fun ends outputs => ends.eval outputs) children
  | "parallel" => return .parallel name description children
  | "router" =>
    let selection : Selection ← (v.member? "select").bind Selection.ofJson?
    return .router name description (fun input => selection.eval input) children
  | _ => failure

mutual

/-- Reads a node and the nodes below it. -/
def node : Json → Registering Node
  | .obj members => do
    let children ← childrenIn members
    assemble (.obj members) children
  | _ => failure

/-- Reads the children among the members of a node. -/
def childrenIn : List (String × Json) → Registering (List Node)
  | [] => return []
  | (key, v) :: rest => if key = "nodes" then nodesOf v else childrenIn rest

def nodesOf : Json → Registering (List Node)
  | .arr items => nodes items
  | _ => return []

def nodes : List Json → Registering (List Node)
  | [] => return []
  | v :: rest => do
    let n ← node v
    return n :: (← nodes rest)

end

end Definition

end WorkflowEngine
