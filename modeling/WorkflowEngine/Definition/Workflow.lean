import WorkflowEngine.Definition.Node
import WorkflowEngine.Wire.Config
import WorkflowEngine.Workflow.Session

/-!
# Workflows in documents
-/

namespace WorkflowEngine

/-- What a workflow function does on the way. -/
inductive FunctionAction where
  | act (a : Action)
  | emit (e : EventKind)
  /-- Ends the function when the run was cancelled. -/
  | check

namespace FunctionAction

def run (scope : Scope) : FunctionAction → Script EventKind Unit
  | act a => a.run scope
  | emit e => .emit e (.finish ())
  | check => .cancelled fun b => if b then .fail .cancelled else .finish ()

def runAll (scope : Scope) : List FunctionAction → Script EventKind Unit
  | [] => .finish ()
  | a :: rest => (a.run scope).bind fun _ => runAll scope rest

def ofJson? : Json → Option FunctionAction
  | .str "check" => some check
  | .obj [("emit", .obj members)] => (EventKind.decode? members).map emit
  | v => (Action.ofJson? v).map act

end FunctionAction

/-- The content of a workflow function: an expression, or a report on the run. -/
inductive FunctionResult where
  | fault (f : Fault)
  | content (e : Option Expression)
  | report

namespace FunctionResult

/-- What a run says of itself. -/
def reportText (ctx : RunContext) (cancelled : Bool) : String :=
  let timeout := match ctx.stepDefaults.timeoutSecs with
    | some secs => "Some(" ++ toString secs ++ ")"
    | none => "None"
  "streaming=" ++ Expression.truthText ctx.isStreaming
    ++ " cancelled=" ++ Expression.truthText cancelled
    ++ " retries=" ++ toString ctx.stepDefaults.maxRetries
    ++ " timeout=" ++ timeout
    ++ " session=" ++ Expression.truthText ((ctx.forStep "").sessionId == ctx.sessionId)

def run (scope : Scope) (ctx : RunContext) : FunctionResult → Script EventKind Content
  | fault f => .fail f
  | content none => .finish (.text "")
  | content (some e) =>
    .look fun s => .finish ((e.eval { scope with state := some s }).getD (.text ""))
  | report => .cancelled fun b => .finish (.text (reportText ctx b))

def ofJson? (v : Json) : Option FunctionResult :=
  match v.member? "err", v.member? "expr" with
  | some f, _ => (Fault.ofJson? f).map fault
  | none, some (.str "context") => some report
  | none, some e => (Expression.ofJson? e).map fun e => content (some e)
  | none, none => some (content none)

end FunctionResult

/-- A workflow with the names of the store and the bus it works with. -/
structure WorkflowDefinition where
  name : String
  plan : Plan
  id : Option String
  description : Option String
  config : Option EngineConfig
  store : Option String
  bus : Option String
  sessionId : Option String
  sessionState : Option SessionState

namespace Definition

/-- Reads what a workflow runs. -/
def plan (v : Json) : Registering Plan := do
  match given? v "function" with
  | some f =>
    let actions ← (items f "do").mapM (m := Option) FunctionAction.ofJson?
    let result : FunctionResult ← FunctionResult.ofJson? f
    return .function fun input ctx =>
      let scope : Scope := { input := input.toStepInput }
      (FunctionAction.runAll scope actions).bind fun _ => result.run scope ctx
  | none => return .nodes (← nodes (items v "nodes"))

def workflow (v : Json) : Registering WorkflowDefinition := do
  let plan ← plan v
  let config : Option EngineConfig ← optional v "config" EngineConfig.decode?
  let state : Option SessionState ← optional v "session_state" SessionState.ofJson?
  return {
    name := text v "name"
    plan
    id := text? v "workflow_id"
    description := text? v "desc"
    config
    store := text? v "store"
    bus := text? v "bus"
    sessionId := text? v "session_id"
    sessionState := state }

end Definition

/-- Sets up a defined workflow, given the stores and buses by their names. -/
def WorkflowDefinition.build (d : WorkflowDefinition) (stores : KeyMap (Ref Store))
    (buses : KeyMap (Ref EventBus)) (e : Engine) : Workflow × Engine :=
  let (w, e) := Workflow.new d.name d.plan e
  let w := { w with id := d.id.getD w.id, description := d.description }
  let w := match d.config with
    | some c => w.configured c
    | none => w
  let w := { w with store := d.store.bind stores.get?, bus := d.bus.bind buses.get? }
  let e := match d.sessionId with
    | some id => w.attach id e
    | none => e
  let e := match d.sessionState with
    | some state => w.setSessionState state e
    | none => e
  (w, e)

end WorkflowEngine
