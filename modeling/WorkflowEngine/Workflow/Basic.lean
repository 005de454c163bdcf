import WorkflowEngine.Config.Basic
import WorkflowEngine.Node.Validation
import WorkflowEngine.Run.Context
import WorkflowEngine.Run.Basic

/-!
# Workflows
-/

namespace WorkflowEngine

/-- What a workflow runs: nodes, or a function that gives the content itself. -/
inductive Plan where
  | nodes (nodes : List Node)
  | function (f : ExecutionInput → RunContext → Script EventKind Content)

/-- A workflow. Workflows with one slot share the session and its committed state. -/
structure Workflow where
  id : String
  name : String
  description : Option String := none
  plan : Plan
  store : Option (Ref Store) := none
  bus : Option (Ref EventBus) := none
  stepDefaults : StepSection := {}
  eventBuffer : Nat := 256
  slot : Ref SessionSlot

namespace Workflow

/-- A workflow with an identifier and a session of its own. -/
def new (name : String) (plan : Plan) (e : Engine) : Workflow × Engine :=
  let (id, e) := e.freshId
  let (session, e) := e.freshId
  let (state, e) := e.addState ∅
  let (slot, slots) := e.slots.add { id := session, state }
  ({ id, name, plan, slot }, { e with slots })

/-- Takes over the name, the size of the event buffer and the step defaults of a configuration. -/
def configured (w : Workflow) (c : EngineConfig) : Workflow :=
  { w with
    name := c.workflow.name.getD w.name
    stepDefaults := c.step
    eventBuffer := max c.workflow.eventBuffer 1 }

/-- Checks the name, that there is something to run, and the nodes. -/
def validate (w : Workflow) : Except Fault Unit :=
  if Text.isAllBlank w.name then .error (.invalidWorkflow "workflow name is empty")
  else match w.plan with
    | .nodes [] => .error (.invalidWorkflow ("workflow '" ++ w.name ++ "' has no steps"))
    | .nodes nodes => Node.validateNodes nodes
    | .function _ => .ok ()

end Workflow

end WorkflowEngine
