import WorkflowEngine.Node.Execution
import WorkflowEngine.Proofs.Run.Tasks

/-!
# Visits of nodes

What a visit of a node tells: which nodes are entered on which inputs, which executors are called
and which outputs are given, in which order. It is said by recursion on the tree and knows nothing
of time, sessions, events or the order in which fibers get their turns. Beside its output a
visit gives its course, the tree of the visits it is made of.
-/

namespace WorkflowEngine

/-- How a finished visit went. -/
inductive Course where
  /-- A step gave an output. -/
  | leaf (output : StepOutput)
  /-- Visits one after another, to the end of the group. -/
  | group (visits : List Course)
  /-- Visits one after another until the last of them halted the group. -/
  | halted (visits : List Course)
  /-- The visits of all iterations of a loop, one after another. -/
  | loop (visits : List Course)
  /-- Visits side by side, in the order of declaration. -/
  | parallel (visits : List Course)

namespace Course

mutual

/-- The outputs of the steps, in order of execution; those side by side in order of declaration. -/
def leaves : Course → List StepOutput
  | leaf output => [output]
  | group visits | halted visits | loop visits | parallel visits => leavesOf visits

def leavesOf : List Course → List StepOutput
  | [] => []
  | c :: rest => c.leaves ++ leavesOf rest

end

/-- How a group went, by how its sequence ended. -/
def ofSequence (q : Sequence) (visits : List Course) : Course :=
  match q with
  | .halted _ => halted visits
  | .completed .. | .empty _ => group visits

end Course

open TaskAccount

/-- A number of calls of a step's executor. The output bears the step's name and executor; a fault
that comes out is fatal. -/
def Step.calls (s : Step) (input : StepInput) : TaskAccount (StepOutput × Course) := fun t r =>
  (∃ n, t = List.replicate n (.called s.name input)) ∧
    ∀ q, r = some q → (∃ fault, q = .error fault ∧ fault.isFatal) ∨
      ∃ output ms, q = .ok (s.stamp output ms, .leaf (s.stamp output ms))

namespace Loop

/-- One iteration, after those whose outputs are given. -/
def round (name : String) (ends : Option (List StepOutput → Except String Bool))
    (body : StepInput → TaskAccount (Sequence × List Course)) (done : List StepOutput)
    (input : StepInput)
    (otherwise : StepOutput → List StepOutput → StepInput →
      TaskAccount (LoopResult × List Course)) : TaskAccount (LoopResult × List Course) :=
  unlessCancelled <| (body input).bind fun (q, visits) =>
    match q with
    | .halted output => ret (finish name output (done ++ [output]) .interrupted, visits)
    | .completed output next _ => conclude output next visits
    | .empty next => conclude (Node.passthrough name .loop next) next visits
where
  conclude (output : StepOutput) (next : StepInput) (visits : List Course) :
      TaskAccount (LoopResult × List Course) :=
    let done := done ++ [output]
    (ofResult (converged name ends done)).bind fun converged =>
      if converged then ret (finish name output done .converged, visits)
      else (otherwise output done next).map fun (result, later) => (result, visits ++ later)

/-- Iterations, with a number of them allowed after the first. -/
def rounds (name : String) (ends : Option (List StepOutput → Except String Bool))
    (body : StepInput → TaskAccount (Sequence × List Course)) :
    Nat → List StepOutput → StepInput → TaskAccount (LoopResult × List Course)
  | 0, done, input =>
    round name ends body done input fun output done _ =>
      ret (finish name output done .exhausted, [])
  | left + 1, done, input =>
    round name ends body done input fun _ done next => rounds name ends body left done next

/-- All iterations of a loop. -/
def visit (name : String) (maxIterations : Nat)
    (ends : Option (List StepOutput → Except String Bool))
    (body : StepInput → TaskAccount (Sequence × List Course)) (input : StepInput) :
    TaskAccount (LoopResult × List Course) :=
  match maxIterations with
  | 0 => ofResult (.error (.invalidWorkflow
      ("loop '" ++ name ++ "' must allow at least one iteration")))
  | left + 1 => rounds name ends body left [] input

end Loop

namespace Join

/-- The courses of the children that gave an output. -/
def courses : List (Except Fault (StepOutput × Course)) → List Course
  | [] => []
  | .ok (_, c) :: rest => c :: courses rest
  | .error _ :: rest => courses rest

/-- Children side by side, until all have ended. -/
def visit (name : String) (names : List String)
    (children : List (TaskAccount (StepOutput × Course))) : TaskAccount (StepOutput × Course) :=
  fun t r => ∃ q, Account.together children t q ∧ ∀ p, r = some p → ∃ results, q = some results ∧
    p = (result name names (results.map (Except.map Prod.fst))).map fun output =>
      (output, .parallel (courses results))

end Join

namespace Node

/-- The output that a node gives of the output of its work: it may get a duration of its own. -/
def Dates (n : Node) (o o' : StepOutput) : Prop :=
  if o.durationMs.isNone || !n.isLeaf && o.stepName == n.name then
    ∃ ms, o' = { o with durationMs := some ms }
  else o' = o

/-- Nothing but the duration may become another one. -/
theorem Dates.exists_duration {n : Node} {o o' : StepOutput} (h : n.Dates o o') :
    ∃ durationMs, o' = { o with durationMs } := by
  unfold Dates at h
  split at h
  · obtain ⟨ms, rfl⟩ := h
    exact ⟨some ms, rfl⟩
  · subst h
    exact ⟨o'.durationMs, by cases o'; rfl⟩

/-- What a node tells around its work. -/
inductive Around (n : Node) (input : StepInput) (work : TaskAccount (StepOutput × Course)) :
    TaskAccount (StepOutput × Course)
  | idle : Around n input work [] none
  | cancelled : Around n input work [] (some (.error .cancelled))
  | under {t : List Happening} {q : Option (Except Fault (StepOutput × Course))} (h : work t q) :
      Around n input work (.entered n.name input :: t) none
  | fault {t : List Happening} {fault : Fault} (h : work t (some (.error fault))) :
      Around n input work (.entered n.name input :: t) (some (.error fault))
  | gave {t : List Happening} {o o' : StepOutput} {c : Course} (h : work t (some (.ok (o, c))))
      (ho : n.Dates o o') {r : Option (Except Fault (StepOutput × Course))}
      (hr : ∀ p, r = some p → p = .ok (o', c)) :
      Around n input work (.entered n.name input :: (t ++ [.gave n.name o'])) r

/-- The visit of a group. -/
def visitGroup (name : String) (kind : ExecutorKind)
    (sequence : TaskAccount (Sequence × List Course)) : TaskAccount (StepOutput × Course) :=
  sequence.map fun (q, visits) => (q.grouped name kind, .ofSequence q visits)

mutual

/-- What the work of a node itself tells. -/
def visitWork (input : StepInput) : Node → TaskAccount (StepOutput × Course)
  | step s => s.calls input
  | steps name _ children => visitGroup name .steps (visitSequence children input)
  | condition name _ test children =>
    (ofResult (evaluate name test input)).bind fun holds =>
      if holds then visitGroup name .condition (visitSequence children input)
      else ret (passthrough name .condition input, .group [])
  | loop name _ maxIterations ends children =>
    (Loop.visit name maxIterations ends (visitSequence children) input).map fun (result, visits) =>
      (result.output, .loop visits)
  | parallel name _ children => Join.visit name (children.map Node.name) (visitAll input children)
  | router name _ select choices =>
    (ofResult (choose name select choices input)).bind fun choice =>
      visitChoice input choice.name choices

/-- What nodes tell one after another until one halts. -/
def visitSequence : List Node → StepInput → TaskAccount (Sequence × List Course)
  | [], input => ret (.empty input, [])
  | n :: rest, input =>
    (n.Around input (visitWork input n)).bind fun (output, c) =>
      if output.halts then ret (.halted output, [c])
      else (visitSequence rest (input.chain n.name output)).map fun (q, visits) =>
        (q.after output, c :: visits)

/-- What nodes on one input tell, for each of them. -/
def visitAll (input : StepInput) : List Node → List (TaskAccount (StepOutput × Course))
  | [] => []
  | n :: rest => n.Around input (visitWork input n) :: visitAll input rest

/-- What the first node with a name tells. -/
def visitChoice (input : StepInput) (name : String) :
    List Node → TaskAccount (StepOutput × Course)
  | [] => ofResult (.error (.routerMisconfigured "" name ""))
  | n :: rest =>
    if n.name == name then n.Around input (visitWork input n) else visitChoice input name rest

end

/-- What a visit of a node tells. -/
def visit (n : Node) (input : StepInput) : TaskAccount (StepOutput × Course) :=
  n.Around input (visitWork input n)

end Node

end WorkflowEngine
