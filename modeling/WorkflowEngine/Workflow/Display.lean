import WorkflowEngine.Node.Basic
import WorkflowEngine.Text.Printable
import WorkflowEngine.Time.Span
import WorkflowEngine.Workflow.Basic

/-!
# Nodes and workflows as texts

A node is shown as the word for its kind around a record of its fields. Fields that are functions
are not shown; two dots stand for them.
-/

namespace WorkflowEngine

namespace Display

/-- A record of fields; an open one has more fields than are shown. -/
def record (name : String) (fields : List (String × String)) (isOpen : Bool) : String :=
  let shown := fields.map fun (field, value) => field ++ ": " ++ value
  name ++ " \x7b " ++ String.intercalate ", " (if isOpen then shown ++ [".."] else shown) ++ " \x7d"

def option (shown : α → String) : Option α → String
  | none => "None"
  | some a => "Some(" ++ shown a ++ ")"

def bool (b : Bool) : String := if b then "true" else "false"

def variant (name : String) (payload : String) : String := name ++ "(" ++ payload ++ ")"

def list (items : List String) : String := "[" ++ String.intercalate ", " items ++ "]"

end Display

open Display in
def Step.display (s : Step) : String :=
  record "Step"
    [("name", Text.quoted s.name), ("executor", Text.quoted s.executor.name),
     ("kind", s.executor.kind.title), ("max_retries", option toString s.maxRetries),
     ("timeout", option Span.unitText s.timeoutMs), ("skip_on_failure", bool s.skipOnFailure)]
    false

namespace Node

open Display

mutual

def display : Node → String
  | step s => variant "Step" s.display
  | steps name description children =>
    variant "Steps" (record "Steps"
      [("name", Text.quoted name), ("description", option Text.quoted description),
       ("steps", list (displayAll children))] false)
  | condition name _ _ children =>
    variant "Condition" (record "Condition"
      [("name", Text.quoted name), ("steps", list (displayAll children))] true)
  | loop name _ maxIterations ends children =>
    variant "Loop" (record "Loop"
      [("name", Text.quoted name), ("max_iterations", toString maxIterations),
       ("has_end_condition", bool ends.isSome), ("steps", list (displayAll children))] false)
  | parallel name description children =>
    variant "Parallel" (record "Parallel"
      [("name", Text.quoted name), ("description", option Text.quoted description),
       ("steps", list (displayAll children))] false)
  | router name _ _ choices =>
    variant "Router" (record "Router"
      [("name", Text.quoted name), ("choices", list (displayAll choices))] true)

def displayAll : List Node → List String
  | [] => []
  | n :: rest => n.display :: displayAll rest

end

end Node

def Plan.display : Plan → String
  | .nodes all => toString all.length ++ " nodes"
  | .function _ => "function"

open Display in
def Workflow.display (w : Workflow) : String :=
  record "Workflow"
    [("workflow_id", Text.quoted w.id), ("name", Text.quoted w.name),
     ("steps", Text.quoted w.plan.display), ("has_storage", bool w.store.isSome)]
    true

end WorkflowEngine
