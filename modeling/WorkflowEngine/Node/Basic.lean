import WorkflowEngine.Step.Basic

/-!
# Nodes

A workflow is a tree of nodes. The leaves are steps; the other nodes say in which order, how often
and under which condition their children run.
-/

namespace WorkflowEngine

inductive Node where
  | step (s : Step)
  | steps (name : String) (description : Option String) (children : List Node)
  /-- Runs its children when `test` accepts the input. -/
  | condition (name : String) (description : Option String)
      (test : StepInput → Except String Bool) (children : List Node)
  /-- Repeats its children until `ends` accepts the outputs of the iterations so far. -/
  | loop (name : String) (description : Option String) (maxIterations : Nat)
      (ends : Option (List StepOutput → Except String Bool)) (children : List Node)
  | parallel (name : String) (description : Option String) (children : List Node)
  /-- Runs the choice whose name `select` gives. -/
  | router (name : String) (description : Option String)
      (select : StepInput → Except String String) (choices : List Node)

namespace Node

def defaultMaxIterations : Nat := 3

def name : Node → String
  | step s => s.name
  | steps name .. | condition name .. | loop name .. | parallel name .. | router name .. => name

def description : Node → Option String
  | step s => s.description
  | steps _ d _ | condition _ d _ _ | loop _ d _ _ _ | parallel _ d _ | router _ d _ _ => d

def kind : Node → ExecutorKind
  | step s => s.executor.kind
  | steps .. => .steps
  | condition .. => .condition
  | loop .. => .loop
  | parallel .. => .parallel
  | router .. => .router

def children : Node → List Node
  | step _ => []
  | steps _ _ children | condition _ _ _ children | loop _ _ _ _ children
  | parallel _ _ children | router _ _ _ children => children

def isLeaf : Node → Bool
  | step _ => true
  | _ => false

/-- The output of a node that had nothing to do: the content it would have built on. -/
def passthrough (name : String) (kind : ExecutorKind) (input : StepInput) : StepOutput :=
  { stepName := name, executorKind := kind, executorName := name, content := input.basis }

/-- Asks a condition. -/
def evaluate (name : String) (test : StepInput → Except String Bool) (input : StepInput) :
    Except Fault Bool :=
  (test input).mapError (.evaluator name)

/-- The choice that a router selects. -/
def choose (name : String) (select : StepInput → Except String String) (choices : List Node)
    (input : StepInput) : Except Fault Node :=
  match select input with
  | .error message => .error (.evaluator name message)
  | .ok selected =>
    match choices.find? (·.name == selected) with
    | some choice => .ok choice
    | none =>
      .error (.routerMisconfigured name selected (String.intercalate ", " (choices.map Node.name)))

/-! ## The tree of nodes -/

mutual

/-- All nodes below a node, each before the nodes below itself. -/
def inside : Node → List Node
  | step _ => []
  | steps _ _ children => descendants children
  | condition _ _ _ children => descendants children
  | loop _ _ _ _ children => descendants children
  | parallel _ _ children => descendants children
  | router _ _ _ choices => descendants choices

/-- Some nodes and all nodes below them. -/
def descendants : List Node → List Node
  | [] => []
  | n :: rest => n :: (inside n ++ descendants rest)

end

/-- The names of all nodes of some trees. -/
def names (nodes : List Node) : List String := (descendants nodes).map Node.name

/-- The first node with a name in some trees. -/
def find? (nodes : List Node) (name : String) : Option Node :=
  (descendants nodes).find? (·.name == name)

end Node

end WorkflowEngine
