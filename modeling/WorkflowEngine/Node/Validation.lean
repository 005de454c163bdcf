import WorkflowEngine.Fault
import WorkflowEngine.Node.Basic
import WorkflowEngine.Text.Blank

/-!
# Validation

Names are neither blank nor used twice in the whole tree, loops can iterate over something, and
parallel nodes and routers have children.
-/

namespace WorkflowEngine.Node

/-- What is wrong with a node apart from its name. -/
def shapeFault? : Node → Option Fault
  | loop name _ maxIterations _ children =>
    if maxIterations = 0 then
      some (.invalidWorkflow ("loop '" ++ name ++ "' must allow at least one iteration"))
    else if children.isEmpty then some (.invalidWorkflow ("loop '" ++ name ++ "' has no steps"))
    else none
  | parallel name _ children =>
    if children.isEmpty then some (.invalidWorkflow ("parallel '" ++ name ++ "' has no steps"))
    else none
  | router name _ _ choices =>
    if choices.isEmpty then some (.invalidWorkflow ("router '" ++ name ++ "' has no choices"))
    else none
  | step _ | steps .. | condition .. => none

/-- What is wrong with a node itself, given the names met before it. -/
def ownFault? (seen : List String) (n : Node) : Option Fault :=
  if Text.isAllBlank n.name then
    some (.invalidWorkflow (n.kind.name ++ " node has an empty name"))
  else if n.name ∈ seen then some (.duplicateStepName n.name)
  else n.shapeFault?

/-- Checks a node itself and adds its name to the names met before it. -/
def own (seen : List String) (n : Node) : Except Fault (List String) :=
  match n.ownFault? seen with
  | some fault => .error fault
  | none => .ok (n.name :: seen)

mutual

/-- Checks a tree from its root down and gives the names met so far. -/
def validate (seen : List String) : Node → Except Fault (List String)
  | n@(step _) => own seen n
  | n@(steps _ _ children) => do validateAll (← own seen n) children
  | n@(condition _ _ _ children) => do validateAll (← own seen n) children
  | n@(loop _ _ _ _ children) => do validateAll (← own seen n) children
  | n@(parallel _ _ children) => do validateAll (← own seen n) children
  | n@(router _ _ _ choices) => do validateAll (← own seen n) choices

def validateAll (seen : List String) : List Node → Except Fault (List String)
  | [] => .ok seen
  | n :: rest => do validateAll (← validate seen n) rest

end

/-- Checks the nodes of a workflow. -/
def validateNodes (nodes : List Node) : Except Fault Unit := do
  let _ ← validateAll [] nodes

end WorkflowEngine.Node
