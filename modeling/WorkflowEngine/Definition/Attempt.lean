import WorkflowEngine.Definition.Callback
import WorkflowEngine.Executor.Basic
import WorkflowEngine.Wire.Event

/-!
# Attempts

What an executor does at one call, as it is written in a document: actions on the run, and an
ending. A streamed call is written as a list of items.
-/

namespace WorkflowEngine

namespace Fault

/-- The word for the kind of a fault. -/
def kindWord : Fault → String
  | executor .. => "Executor"
  | evaluator .. => "Evaluator"
  | routerMisconfigured .. => "RouterMisconfigured"
  | timeout .. => "Timeout"
  | cancelled => "Cancelled"
  | duplicateStepName .. => "DuplicateStepName"
  | invalidWorkflow .. => "InvalidWorkflow"
  | config .. | malformedConfig => "Config"
  | configNotFound .. => "ConfigNotFound"
  | database .. => "Database"
  | runtime .. => "Runtime"
  | io .. => "Io"
  | json .. => "Json"

/-- What the reader of documents says about the empty text. -/
def emptyDocument : Fault := .json "EOF while parsing a value at line 1 column 0"

/-- The fault of a kind with its details. -/
def ofKind? (kind step message selected choices : String) (ms : Nat) : Option Fault :=
  [executor step message, evaluator step message, routerMisconfigured step selected choices,
   timeout step ms, cancelled, duplicateStepName message, invalidWorkflow message, config message,
   configNotFound message, database message, runtime message, io message, emptyDocument].find?
    (·.kindWord == kind)

def ofJson? (v : Json) : Option Fault :=
  let text (key : String) : String := ((v.member? key).bind Json.text?).getD ""
  ofKind? (text "kind") (text "step") (text "message") (text "selected") (text "choices")
    (((v.member? "ms").bind Json.word?).getD 0)

end Fault

/-- What is done to the run on the way. -/
inductive Action where
  | set (key : String) (v : Json)
  | put (key : String) (e : Expression)
  | increment (key : String)
  | remove (key : String)
  | sleep (ms : Nat)
  | cancel
  | abort (message : String)

namespace Action

/-- The signed word after a value, the least one after the greatest. What is no signed word counts
as zero. -/
def successor (v : Option Json) : Int :=
  let limit : Int := Word.signedEnd
  match v with
  | some (.int n) =>
    if n + 1 = limit then -limit
    else if -limit ≤ n && n < limit then n + 1
    else 1
  | _ => 1

def run (scope : Scope) : Action → Script ε Unit
  | set key v => .change (·.insert key v) (.finish ())
  | put key e =>
    .change (fun s => s.insert key (Content.encodeOption (e.eval { scope with state := some s })))
      (.finish ())
  | increment key => .change (fun s => s.insert key (.int (successor (s.get? key)))) (.finish ())
  | remove key => .change (·.erase key) (.finish ())
  | sleep ms => .sleep ms (.finish ())
  | cancel => .cancel (.finish ())
  | abort message => .abort message

def runAll (scope : Scope) : List Action → Script ε Unit
  | [] => .finish ()
  | a :: rest => (a.run scope).bind fun _ => runAll scope rest

def ofJson? : Json → Option Action
  | .obj [("set", .arr [.str key, v])] => some (set key v)
  | .obj [("put", .arr [.str key, e])] => do return put key (← Expression.ofJson? e)
  | .obj [("incr", .str key)] => some (increment key)
  | .obj [("remove", .str key)] => some (remove key)
  | .obj [("sleep", ms)] => do return sleep (← ms.word?)
  | .obj [("cancel", .bool true)] => some cancel
  | .obj [("panic", .str message)] => some (abort message)
  | _ => none

end Action

/-- How a call ends: with a fault, or with an output whose content an expression may give. -/
inductive Ending where
  | fault (f : Fault)
  | output (o : StepOutput) (content : Option Expression)

namespace Ending

def run (scope : Scope) : Ending → Script ε StepOutput
  | fault f => .fail f
  | output o none => .finish o
  | output o (some e) =>
    .look fun s => .finish { o with content := e.eval { scope with state := some s } }

def ofJson? (v : Json) : Option Ending := do
  match v.member? "err" with
  | some f => return fault (← Fault.ofJson? f)
  | none =>
    let o ← match v.member? "ok" with
      | some o => StepOutput.decode? o
      | none => pure {}
    match v.member? "expr" with
    | some e => return output o (some (← Expression.ofJson? e))
    | none => return output o none

end Ending

inductive StreamItem where
  | part (e : Expression)
  | act (a : Action)
  | final (ending : Ending)

namespace StreamItem

/-- Streams items up to the first ending. -/
def runAll (scope : Scope) : List StreamItem → Script StepOutput (Option StepOutput)
  | [] => .finish none
  | part e :: rest =>
    .look fun s => .emit { content := e.eval { scope with state := some s } } (runAll scope rest)
  | act a :: rest => (a.run scope).bind fun _ => runAll scope rest
  | final ending :: _ => (ending.run scope).bind fun o => .finish (some o)

def ofJson? (v : Json) : Option StreamItem :=
  match v with
  | .obj [("partial", e)] => (Expression.ofJson? e).map part
  | .obj [("do", a)] => (Action.ofJson? a).map act
  | v => (Ending.ofJson? v).map final

end StreamItem

structure Attempt where
  actions : List Action
  ending : Ending
  items : List StreamItem

namespace Attempt

def run (scope : Scope) (a : Attempt) : Script Empty StepOutput :=
  (Action.runAll scope a.actions).bind fun _ => a.ending.run scope

def itemsOf (v : Json) (key : String) : List Json := ((v.member? key).bind Json.items?).getD []

def ofJson? (v : Json) : Option Attempt := do
  return {
    actions := ← (itemsOf v "do").mapM Action.ofJson?
    ending := ← Ending.ofJson? v
    items := ← (itemsOf v "stream").mapM StreamItem.ofJson? }

/-- The attempt of a call, given how many came before it. The last one serves all later calls. -/
def at? (attempts : List Attempt) (n : Nat) : Option Attempt :=
  attempts[min n (attempts.length - 1)]?

/-- A direct call by its attempts. -/
def call (attempts : List Attempt) (calls : Ref Tally) (input : StepInput) (ctx : ExecutorContext) :
    Script Empty StepOutput :=
  .count calls fun n =>
    match at? attempts n with
    | some a => a.run { input, stepName := ctx.stepName }
    | none => .finish {}

/-- A streamed call by its attempts. -/
def stream (attempts : List Attempt) (calls : Ref Tally) (input : StepInput)
    (ctx : ExecutorContext) : Script StepOutput (Option StepOutput) :=
  .count calls fun n =>
    match at? attempts n with
    | some a => StreamItem.runAll { input, stepName := ctx.stepName } a.items
    | none => .finish none

end Attempt

end WorkflowEngine
