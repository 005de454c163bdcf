import WorkflowEngine.Event.Basic
import WorkflowEngine.Node.Basic

/-!
# The arrangement of logs

The events of parallel children come in the order of time. Arranged, they stand child by child in
the order of declaration, each child's events in their own order.
-/

namespace WorkflowEngine.Arrangement

/-- Whether an event belongs to one of some nodes. -/
def belongsTo (names : List String) (e : WorkflowEvent) : Bool :=
  e.kind.stepName?.any names.contains

/-- Deals out events to the children they belong to; the rest comes last. -/
def deal (arrange : Node → List WorkflowEvent → List WorkflowEvent) :
    List Node → List WorkflowEvent → List WorkflowEvent
  | [], events => events
  | child :: rest, events =>
    let (own, others) := events.partition (belongsTo (Node.names [child]))
    arrange child own ++ deal arrange rest others

/-- Arranges at most a number of events. -/
def arrangeUpTo : Nat → List Node → List WorkflowEvent → List WorkflowEvent
  | 0, _, events => events
  | _ + 1, _, [] => []
  | n + 1, nodes, e :: rest =>
    match e.kind with
    | .parallelStarted name _ =>
      match Node.find? nodes name with
      | some node =>
        let names := Node.names node.children
        let block := rest.takeWhile (belongsTo names)
        let others := rest.dropWhile (belongsTo names)
        e :: (deal (fun child => arrangeUpTo n [child]) node.children block
          ++ arrangeUpTo n nodes others)
      | none => e :: arrangeUpTo n nodes rest
    | _ => e :: arrangeUpTo n nodes rest

/-- Arranges the log of a run of some nodes. -/
def arrange (nodes : List Node) (events : List WorkflowEvent) : List WorkflowEvent :=
  arrangeUpTo events.length nodes events

end WorkflowEngine.Arrangement
