import WorkflowEngine.Node.Execution
import WorkflowEngine.Proofs.Node.Liveliness
import WorkflowEngine.Proofs.Node.Untimed
import WorkflowEngine.Proofs.Run.Reckoning

/-!
# Reckoned nodes

What a tree of nodes comes to on a scene: one node after another, without time, events and durations. Main
statement: the reckoning of nodes leaves everything outside of the realm of their executors alone.
-/

namespace WorkflowEngine

open Realm

/-- What a run asks of its nodes, however it is carried out. -/
structure Duty where
  sessionId : String
  runId : String
  maxRetries : Nat

def RunContext.duty (ctx : RunContext) : Duty :=
  ⟨ctx.sessionId, ctx.runId, ctx.stepDefaults.maxRetries⟩

def Duty.forStep (x : Duty) (stepName : String) : ExecutorContext :=
  { sessionId := x.sessionId, runId := x.runId, stepName }

namespace Step

/-- The attempts of a step with a number of retries, one after another. -/
def reckonAttempts (s : Step) (x : Duty) (input : StepInput) :
    Nat → Reckoning (Except String StepOutput)
  | 0 => once fun message => pure (.error message)
  | retries + 1 => once fun _ => s.reckonAttempts x input retries
where
  once (otherwise : String → Reckoning (Except String StepOutput)) :
      Reckoning (Except String StepOutput) := do
    match ← (s.executor.call input (x.forStep s.name)).reckon.result with
    | .ok output => return .ok output
    | .error fault =>
      if fault.isFatal then Reckoning.ofResult (.error fault) else otherwise fault.stepMessage

def reckon (s : Step) (x : Duty) (input : StepInput) : Reckoning StepOutput := do
  let result ← s.reckonAttempts x input (s.maxRetries.getD x.maxRetries)
  return match result with
    | .ok output => (s.stamp output 0).untimed
    | .error message => (s.stamp (s.afterFailure message) 0).untimed

end Step

namespace Loop

def reckonTurn (name : String) (ends : Option (List StepOutput → Except String Bool))
    (body : StepInput → Reckoning Sequence) (done : List StepOutput) (input : StepInput)
    (otherwise : StepOutput → List StepOutput → StepInput → Reckoning LoopResult) :
    Reckoning LoopResult := do
  match ← body input with
  | .halted output => return finish name output (done ++ [output]) .interrupted
  | .completed output next _ => conclude output next
  | .empty next => conclude (Node.passthrough name .loop next) next
where
  conclude (output : StepOutput) (next : StepInput) : Reckoning LoopResult := do
    let done := done ++ [output]
    let converged ← Reckoning.ofResult (converged name ends done)
    if converged then return finish name output done .converged
    else otherwise output done next

def reckonIterate (name : String) (ends : Option (List StepOutput → Except String Bool))
    (body : StepInput → Reckoning Sequence) :
    Nat → List StepOutput → StepInput → Reckoning LoopResult
  | 0, done, input => reckonTurn name ends body done input fun output done _ =>
    return finish name output done .exhausted
  | left + 1, done, input => reckonTurn name ends body done input fun _ done next =>
    reckonIterate name ends body left done next

def reckon (name : String) (maxIterations : Nat)
    (ends : Option (List StepOutput → Except String Bool)) (body : StepInput → Reckoning Sequence)
    (input : StepInput) : Reckoning LoopResult :=
  match maxIterations with
  | 0 => Reckoning.ofResult (.error
    (.invalidWorkflow ("loop '" ++ name ++ "' must allow at least one iteration")))
  | left + 1 => reckonIterate name ends body left [] input

end Loop

namespace Node

mutual

/-- What a node comes to. -/
def reckon (x : Duty) : Node → StepInput → Reckoning StepOutput
  | step s, input => s.reckon x input
  | steps name _ children, input => do
    return (← reckonSequence x children input).grouped name .steps
  | condition name _ test children, input => do
    let result ← Reckoning.ofResult (evaluate name test input)
    if result then return (← reckonSequence x children input).grouped name .condition
    else return passthrough name .condition input
  | loop name _ maxIterations ends children, input => do
    return (← Loop.reckon name maxIterations ends (reckonSequence x children) input).output
  | parallel name _ children, input => fun v =>
    let (results, v) := reckonAll x children input v
    (Join.result name (children.map Node.name) results, v)
  | router name _ select choices, input => do
    let choice ← Reckoning.ofResult (choose name select choices input)
    reckonChoice x choice.name choices input

def reckonSequence (x : Duty) : List Node → StepInput → Reckoning Sequence
  | [], input => return .empty input
  | n :: rest, input => do
    let output ← reckon x n input
    if output.halts then return .halted output
    else return (← reckonSequence x rest (input.chain n.name output)).after output

/-- Nodes on one input, one after another. -/
def reckonAll (x : Duty) : List Node → StepInput → Scene → List (Except Fault StepOutput) × Scene
  | [], _, v => ([], v)
  | n :: rest, input, v =>
    let (q, v) := reckon x n input v
    let (qs, v) := reckonAll x rest input v
    (q :: qs, v)

def reckonChoice (x : Duty) (name : String) : List Node → StepInput → Reckoning StepOutput
  | [], _ => Reckoning.ofResult (.error (.routerMisconfigured "" name ""))
  | n :: rest, input => if n.name == name then reckon x n input else reckonChoice x name rest input

end

end Node

/-! ## Nodes that do not depend on the mode of their run -/

/-- An executor within a realm that does not look at durations, and whose stream comes to what its call
comes to. -/
structure Executor.Modeless (r : Realm) (x : Executor) : Prop where
  call : ∀ input c, (x.call input c).StaysIn r
  stream : ∀ input c, (x.stream input c).StaysIn r
  untimed : ∀ input c, x.call input c = x.call input.untimed c
  streams : ∀ input c v, (x.stream input c).reckon v =
    (((x.call input c).reckon v).1.map some, ((x.call input c).reckon v).2)

/-- An executor that is streamed by being called does not depend on the mode of its run. -/
theorem Executor.Modeless.of_call {r : Realm} {x : Executor} (hcall : ∀ input c, (x.call input c).StaysIn r)
    (huntimed : ∀ input c, x.call input c = x.call input.untimed c)
    (hstream : ∀ input c, x.stream input c =
      (x.call input c).silent.bind fun output => .finish (some output)) : x.Modeless r where
  call := hcall
  stream input c := hstream input c ▸ (hcall input c).silent.map some
  untimed := huntimed
  streams input c v := by
    rw [hstream, Script.reckon_map, Script.reckon_silent]

namespace Node

mutual

/-- A node whose executors are modeless, whose callbacks do not look at durations and whose parallel
children are independent. -/
def Modeless (r : Realm) : Node → Prop
  | step s => s.executor.Modeless r
  | steps _ _ children => AllModeless r children
  | condition _ _ test children => (∀ input, test input = test input.untimed) ∧ AllModeless r children
  | loop _ _ _ ends children =>
    (∀ f, ends = some f → ∀ outputs, f outputs = f (outputs.map StepOutput.untimed)) ∧
      AllModeless r children
  | parallel _ _ children => ∃ realms : List Realm, realms.Pairwise Apart ∧
    (∀ r' ∈ realms, r'.Under r) ∧ EachModeless realms children
  | router _ _ select choices =>
    (∀ input, select input = select input.untimed) ∧ AllModeless r choices

def AllModeless (r : Realm) : List Node → Prop
  | [] => True
  | n :: rest => Modeless r n ∧ AllModeless r rest

/-- Each node is modeless in a realm of its own. -/
def EachModeless : List Realm → List Node → Prop
  | [], [] => True
  | r :: realms, n :: rest => Modeless r n ∧ EachModeless realms rest
  | _, _ => False

end

end Node

/-! ## What reckoning leaves alone -/

variable {r : Realm} {x : Duty}

/-- A reckoning that leaves everything outside of a realm alone. -/
def Reckoning.Spans (r : Realm) (m : Reckoning α) : Prop := ∀ v, r.Spans v (m v).2

namespace Reckoning.Spans

variable {α β : Type} {m : Reckoning α} {k : α → Reckoning β}

theorem ofResult (q : Except Fault α) : Spans r (Reckoning.ofResult q) := fun v => .refl r v

theorem pure (a : α) : Spans r (Pure.pure a : Reckoning α) := fun v => .refl r v

theorem bind (h : Spans r m) (hk : ∀ a, Spans r (k a)) : Spans r (m >>= k) := by
  intro v
  have hm := h v
  rw [bind_apply]
  generalize m v = q at hm
  obtain ⟨q, v'⟩ := q
  cases q with
  | error fault => exact hm
  | ok a => exact hm.trans (hk a v')

theorem result (h : Spans r m) : Spans r m.result := h

end Reckoning.Spans

private theorem Step.spans_reckon {s : Step} (h : s.executor.Modeless r) (input : StepInput) :
    (s.reckon x input).Spans r := by
  have honce {otherwise : String → Reckoning (Except String StepOutput)}
      (ho : ∀ message, (otherwise message).Spans r) :
      (reckonAttempts.once s x input otherwise).Spans r := by
    refine .bind (.result fun v => (h.call _ _).spans v) fun q => ?_
    cases q with
    | ok output => exact .pure _
    | error fault =>
      dsimp only
      split
      · exact .ofResult _
      · exact ho _
  have hattempts (retries : Nat) : (s.reckonAttempts x input retries).Spans r := by
    induction retries with
    | zero => exact honce fun _ => .pure _
    | succ retries ih => exact honce fun _ => ih
  exact .bind (hattempts _) fun _ => .pure _

private theorem Loop.spans_reckon {name : String} {maxIterations : Nat}
    {ends : Option (List StepOutput → Except String Bool)} {body : StepInput → Reckoning Sequence}
    (hb : ∀ input, (body input).Spans r) (input : StepInput) :
    (reckon name maxIterations ends body input).Spans r := by
  have hturn (done : List StepOutput) (input : StepInput)
      {otherwise : StepOutput → List StepOutput → StepInput → Reckoning LoopResult}
      (ho : ∀ output done next, (otherwise output done next).Spans r) :
      (reckonTurn name ends body done input otherwise).Spans r := by
    have hconclude (output : StepOutput) (next : StepInput) :
        (reckonTurn.conclude name ends done otherwise output next).Spans r := by
      refine .bind (.ofResult _) fun converged => ?_
      split
      · exact .pure _
      · exact ho _ _ _
    refine .bind (hb input) fun q => ?_
    cases q with
    | halted output => exact .pure _
    | completed output next produced => exact hconclude _ _
    | empty next => exact hconclude _ _
  have hiterate (left : Nat) (done : List StepOutput) (input : StepInput) :
      (reckonIterate name ends body left done input).Spans r := by
    induction left generalizing done input with
    | zero => exact hturn _ _ fun _ _ _ => .pure _
    | succ left ih => exact hturn _ _ fun _ _ _ => ih _ _
  unfold reckon
  split
  · exact .ofResult _
  · exact hiterate _ _ _

namespace Node

mutual

theorem spans_reckon (r : Realm) : (n : Node) → Modeless r n → (input : StepInput) →
    (reckon x n input).Spans r
  | .step s, h, input => by
    unfold reckon
    exact s.spans_reckon (by simpa only [Modeless] using h) input
  | .steps name _ children, h, input => by
    unfold Modeless at h
    unfold reckon
    exact .bind (spans_reckonSequence r children h input) fun _ => .pure _
  | .condition name _ test children, h, input => by
    unfold Modeless at h
    unfold reckon
    refine .bind (.ofResult _) fun holds => ?_
    split
    · exact .bind (spans_reckonSequence r children h.2 input) fun _ => .pure _
    · exact .pure _
  | .loop name _ maxIterations ends children, h, input => by
    unfold Modeless at h
    unfold reckon
    exact .bind (Loop.spans_reckon (spans_reckonSequence r children h.2) input) fun _ => .pure _
  | .parallel name _ children, h, input => by
    unfold Modeless at h
    obtain ⟨realms, -, hunder, h⟩ := h
    unfold reckon
    intro v
    exact (spans_reckonAll realms children h input v).mono (union_under hunder)
  | .router name _ select choices, h, input => by
    unfold Modeless at h
    unfold reckon
    exact .bind (.ofResult _) fun choice => spans_reckonChoice r choice.name choices h.2 input

private theorem spans_reckonSequence (r : Realm) : (nodes : List Node) → AllModeless r nodes →
    (input : StepInput) → (reckonSequence x nodes input).Spans r
  | [], _, input => by
    unfold reckonSequence
    exact .pure _
  | n :: rest, h, input => by
    unfold AllModeless at h
    unfold reckonSequence
    refine .bind (spans_reckon r n h.1 input) fun output => ?_
    split
    · exact .pure _
    · exact .bind (spans_reckonSequence r rest h.2 _) fun _ => .pure _

theorem spans_reckonAll : (realms : List Realm) → (children : List Node) →
    EachModeless realms children → (input : StepInput) → (v : Scene) →
    (union realms).Spans v (reckonAll x children input v).2
  | [], [], _, input, v => by
    unfold reckonAll
    exact .refl _ v
  | r :: realms, n :: rest, h, input, v => by
    unfold EachModeless at h
    unfold reckonAll
    have hhead : (union (r :: realms)).Spans v (reckon x n input v).2 :=
      (spans_reckon r n h.1 input v).mono (under_union (List.mem_cons_self ..))
    have hrest := spans_reckonAll realms rest h.2 input (reckon x n input v).2
    exact hhead.trans (hrest.mono (union_under fun r' hr => under_union (List.mem_cons_of_mem _ hr)))
  | [], _ :: _, h, _, _ => by simp [EachModeless] at h
  | _ :: _, [], h, _, _ => by simp [EachModeless] at h

private theorem spans_reckonChoice (r : Realm) (name : String) : (choices : List Node) →
    AllModeless r choices → (input : StepInput) → (reckonChoice x name choices input).Spans r
  | [], _, input => by
    unfold reckonChoice
    exact .ofResult _
  | n :: rest, h, input => by
    unfold AllModeless at h
    unfold reckonChoice
    split
    · exact spans_reckon r n h.1 input
    · exact spans_reckonChoice r name rest h.2 input

end

end Node

end WorkflowEngine
