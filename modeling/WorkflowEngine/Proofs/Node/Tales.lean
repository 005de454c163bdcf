import WorkflowEngine.Node.Execution
import WorkflowEngine.Proofs.Event.Tales

/-!
# Tales of nodes

What a node tells in a streamed run that nobody cancels: the grammar of its event log. It is said by
recursion on the tree and knows nothing of time, of feeds and their capacity, of readers or of the
order in which fibers get their turns. Only what becomes of children side by side is left open: their
tales may be interleaved, or stand one after another in the order of declaration.
-/

namespace WorkflowEngine

open TaskAccount

/-- What a task tells. -/
abbrev Tale (α : Type) := TaskAccount α Telling

namespace Tale

variable {α : Type}

def note (h : Happening) : Tale Unit := noting h (.ok ())

def say (kind : EventKind) : Tale Unit := saying kind (.ok ())

/-- A value that may depend on the time. -/
inductive timed (f : Nat → α) : Tale α
  | done (ms : Nat) : timed f [] (some (.ok (f ms)))

end Tale

open Tale

namespace Step

/-- The contents that a call of the executor passes on, one after another. -/
inductive passing (s : Step) {α : Type} : Tale α
  | idle {r : Option (Except Fault α)} : passing s [] r
  | published {event : WorkflowEvent} {delta : Content}
      (h : event.kind = .stepContentDelta s.name delta) : passing s [.published event] none
  | delivered {event : WorkflowEvent} {delta : Content} {t : List Telling}
      {r : Option (Except Fault α)} (h : event.kind = .stepContentDelta s.name delta)
      (hrest : passing s t r) : passing s (.published event :: .delivered event :: t) r

/-- One call of the executor. -/
def calling (s : Step) (input : StepInput) : Tale StepOutput :=
  (note (.called s.name input)).bind fun _ => s.passing

/-- One attempt. A call whose time is over is stopped wherever it stands. -/
def trying (s : Step) (input : StepInput) : Option Nat → Tale StepOutput
  | none => s.calling input
  | some ms => fun t r => ∃ q, stopping (s.calling input) t q ∧
      r = q.map (·.getD (.error (.timeout s.name ms)))

/-- Attempts with a number of retries: the first output, or the message of the last failure. -/
def attempting (s : Step) (input : StepInput) (limit : Option Nat) :
    Nat → Tale (Except String StepOutput)
  | 0 => once fun message => ret (.error message)
  | retries + 1 => once fun _ => s.attempting input limit retries
where
  once (otherwise : String → Tale (Except String StepOutput)) : Tale (Except String StepOutput) :=
    (s.trying input limit).result.bind fun
      | .ok output => ret (.ok output)
      | .error fault =>
        if fault.isFatal then ofResult (.error fault) else otherwise fault.stepMessage

/-- What a step makes of its attempts. -/
def outcome (s : Step) : Except String StepOutput → StepOutput
  | .ok output => output
  | .error message => s.afterFailure message

def tale (s : Step) (defaults : StepSection) (input : StepInput) : Tale StepOutput :=
  (s.attempting input (s.timeoutMs.or defaults.timeoutMs)
    (s.maxRetries.getD defaults.maxRetries)).bind fun result => timed (s.stamp (s.outcome result))

end Step

namespace Loop

variable (name : String) (maxIterations : Nat)
  (ends : Option (List StepOutput → Except String Bool)) (body : StepInput → Tale Sequence)

/-- One iteration, after those whose outputs are given. -/
def turning (isLast : Bool) (done : List StepOutput) (input : StepInput)
    (otherwise : StepOutput → List StepOutput → StepInput → Tale LoopResult) : Tale LoopResult :=
  (say (.loopIterationStarted name (done.length + 1) maxIterations)).bind fun _ =>
    (body input).bind fun
      | .halted output =>
        (say (.loopIterationCompleted name (done.length + 1) false)).bind fun _ =>
          ret (finish name output (done ++ [output]) .interrupted)
      | .completed output next _ => conclude output next
      | .empty next => conclude (Node.passthrough name .loop next) next
where
  conclude (output : StepOutput) (next : StepInput) : Tale LoopResult :=
    (ofResult (converged name ends (done ++ [output]))).bind fun converged =>
      (say (.loopIterationCompleted name (done.length + 1) (!converged && !isLast))).bind fun _ =>
        if converged then ret (finish name output (done ++ [output]) .converged)
        else otherwise output (done ++ [output]) next

/-- Iterations, with a number of them allowed after the first. -/
def iterating : Nat → List StepOutput → StepInput → Tale LoopResult
  | 0, done, input =>
    turning name maxIterations ends body true done input fun output done _ =>
      ret (finish name output done .exhausted)
  | left + 1, done, input =>
    turning name maxIterations ends body false done input fun _ done next =>
      iterating left done next

/-- All iterations of a loop. -/
def tale (input : StepInput) : Tale LoopResult :=
  match maxIterations with
  | 0 => ofResult (.error (.invalidWorkflow
      ("loop '" ++ name ++ "' must allow at least one iteration")))
  | left + 1 => iterating name (left + 1) ends body left [] input

end Loop

namespace Node

/-- The output that a node gives of the output of its work, which took some time. -/
def dated (n : Node) (output : StepOutput) (ms : Nat) : StepOutput :=
  if output.durationMs.isNone || !n.isLeaf && output.stepName == n.name then
    { output with durationMs := some ms }
  else output

/-- The block of a node: its start, what its work tells, and its end with the output it gives. -/
def block (n : Node) (input : StepInput) (work : Tale StepOutput) : Tale StepOutput :=
  (note (.entered n.name input)).bind fun _ =>
  (say (.stepStarted n.name n.kind)).bind fun _ =>
  work.bind fun output =>
  (timed (n.dated output)).bind fun output =>
  (note (.gave n.name output)).bind fun _ =>
  (say (.stepCompleted n.name output.success output.content output.error)).bind fun _ =>
  ret output

variable (beside : List (Tale StepOutput) → Account Telling (List (Except Fault StepOutput)))
  (defaults : StepSection)

/-- The results of children side by side. -/
def gathering (children : List (Tale StepOutput)) : Tale (List (Except Fault StepOutput)) :=
  fun t r => ∃ q, beside children t q ∧ r = q.map .ok

mutual

/-- What the work of a node itself tells. -/
def taleInside (input : StepInput) : Node → Tale StepOutput
  | step s => s.tale defaults input
  | steps name _ children => (taleInTurn children input).map (·.grouped name .steps)
  | condition name _ test children =>
    (ofResult (evaluate name test input)).bind fun holds =>
    (say (.conditionEvaluated name holds)).bind fun _ =>
    if holds then (taleInTurn children input).map (·.grouped name .condition)
    else ret (passthrough name .condition input)
  | loop name _ maxIterations ends children =>
    (Loop.tale name maxIterations ends (taleInTurn children) input).map LoopResult.output
  | parallel name _ children =>
    (say (.parallelStarted name (children.map Node.name))).bind fun _ =>
    (gathering beside (taleOfEach input children)).bind fun results =>
    (ofResult (Join.result name (children.map Node.name) results)).bind fun output =>
    (say (.parallelCompleted name output.success)).bind fun _ =>
    ret output
  | router name _ select choices =>
    (ofResult (choose name select choices input)).bind fun choice =>
    (say (.routerSelected name choice.name)).bind fun _ =>
    taleOfChoice input choice.name choices

/-- What nodes tell one after another until one halts. -/
def taleInTurn : List Node → StepInput → Tale Sequence
  | [], input => ret (.empty input)
  | n :: rest, input =>
    (n.block input (taleInside input n)).bind fun output =>
      if output.halts then ret (.halted output)
      else (taleInTurn rest (input.chain n.name output)).map (·.after output)

/-- What nodes on one input tell, for each of them. -/
def taleOfEach (input : StepInput) : List Node → List (Tale StepOutput)
  | [] => []
  | n :: rest => n.block input (taleInside input n) :: taleOfEach input rest

/-- What the first node with a name tells. -/
def taleOfChoice (input : StepInput) (name : String) : List Node → Tale StepOutput
  | [] => ofResult (.error (.routerMisconfigured "" name ""))
  | n :: rest =>
    if n.name == name then n.block input (taleInside input n) else taleOfChoice input name rest

end

/-- What a node tells. -/
def tale (n : Node) (input : StepInput) : Tale StepOutput :=
  n.block input (taleInside beside defaults input n)

end Node

end WorkflowEngine
