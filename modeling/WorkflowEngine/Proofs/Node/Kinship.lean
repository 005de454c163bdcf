import WorkflowEngine.Node.Execution
import WorkflowEngine.Proofs.Run.Kinship

/-!
# Steady nodes

The work of a node depends on nothing that it tells and on nothing that is stored. Main statement: every node
and every sequence of nodes does the same in kin engines, whatever its executors do.
-/

namespace WorkflowEngine

open RunTask

variable {ctx : RunContext}

namespace Step

variable {s : Step}

private theorem steady_invoke (input : StepInput) : Steady ctx (s.invoke input ctx) := by
  refine .lift (RunContext.steady_note _) fun _ => ?_
  split
  · have hforward (output : StepOutput) : ctx.Steady (s.forward ctx output) := by
      unfold forward
      split
      · exact RunContext.steady_emit _
      · exact .done rfl
    refine .bind (RunContext.steady_script hforward _) fun output => ?_
    cases output with
    | some output => exact .pure _
    | none => exact .throw _
  · exact RunContext.steady_script (fun event => event.elim) _

private theorem steady_limited {work : RunTask StepOutput} (limit : Option Nat) (h : Steady ctx work) :
    Steady ctx (s.limited limit work) := by
  unfold limited
  split
  · exact h
  · rename_i ms
    refine .lift RunContext.steady_time fun now => ?_
    have hwithin : ctx.Steady (Fiber.within (now + allowance ms) (fun e => now + allowance ms ≤ e.now)
        work.run) :=
      .race (fun _ _ _ => rfl) (fun _ _ hk => by rw [hk.now]) h fun _ => .done rfl
    refine .lift hwithin fun q => ?_
    cases q with
    | some result => exact .ofResult result
    | none => exact .throw _

private theorem steady_attempts (input : StepInput) (limit : Option Nat) (retries : Nat) :
    Steady ctx (s.attempts input ctx limit retries) := by
  have hattempt : Steady ctx (s.attempt input ctx limit) := by
    have hguarded : ctx.Steady (Fiber.cancellable (fun e => e.isCancelled ctx.token)
        (s.limited limit (s.invoke input ctx)).run) :=
      .race (fun _ _ hk => hk.isCancelled _) (fun _ _ _ => rfl)
        (steady_limited limit (steady_invoke input)) fun _ => .done rfl
    refine .lift hguarded fun q => ?_
    cases q with
    | some result => exact .ofResult result
    | none => exact .throw _
  have honce {otherwise : String → RunTask (Except String StepOutput)}
      (ho : ∀ message, Steady ctx (otherwise message)) :
      Steady ctx (attempts.once s input ctx limit otherwise) := by
    refine .bind .checkCancelled fun _ => .lift (p := (s.attempt input ctx limit).run) hattempt fun q => ?_
    cases q with
    | ok output => exact .pure _
    | error fault =>
      dsimp only
      split
      · exact .throw _
      · exact ho _
  induction retries with
  | zero => exact honce fun _ => .pure _
  | succ retries ih => exact honce fun _ => ih

theorem steady_execute (input : StepInput) : Steady ctx (s.execute input ctx) := by
  unfold execute
  exact .lift RunContext.steady_time fun started => .bind (steady_attempts input _ _) fun result =>
    .lift RunContext.steady_time fun ended => .pure _

end Step

namespace Loop

private theorem steady_run {name : String} {maxIterations : Nat}
    {ends : Option (List StepOutput → Except String Bool)} {body : StepInput → RunTask Sequence}
    (hb : ∀ input, Steady ctx (body input)) (input : StepInput) :
    Steady ctx (run name maxIterations ends ctx body input) := by
  have hturn (isLast : Bool) (done : List StepOutput) (input : StepInput)
      {otherwise : StepOutput → List StepOutput → StepInput → RunTask LoopResult}
      (ho : ∀ output done next, Steady ctx (otherwise output done next)) :
      Steady ctx (turn name maxIterations ends ctx body isLast done input otherwise) := by
    have hconclude (iteration : Nat) (output : StepOutput) (next : StepInput) :
        Steady ctx (turn.conclude name ends ctx isLast done otherwise iteration output next) := by
      refine .bind (.ofResult _) fun converged => .lift (RunContext.steady_emit _) fun _ => ?_
      split
      · exact .pure _
      · exact ho _ _ _
    refine .bind .checkCancelled fun _ => .lift (RunContext.steady_emit _) fun _ => ?_
    refine .bind (hb input) fun q => ?_
    cases q with
    | halted output => exact .lift (RunContext.steady_emit _) fun _ => .pure _
    | completed output next produced => exact hconclude _ _ _
    | empty next => exact hconclude _ _ _
  have hiterate (left : Nat) (done : List StepOutput) (input : StepInput) :
      Steady ctx (iterate name maxIterations ends ctx body left done input) := by
    induction left generalizing done input with
    | zero => exact hturn _ _ _ fun _ _ _ => .pure _
    | succ left ih => exact hturn _ _ _ fun _ _ _ => ih _ _
  unfold run
  split
  · exact .throw _
  · exact hiterate _ _ _

end Loop

namespace Node

private theorem steady_reported {n : Node} {input : StepInput} {work : RunTask StepOutput}
    (hw : Steady ctx work) : Steady ctx (n.reported input ctx work) := by
  unfold reported
  refine .bind .checkCancelled fun _ => .lift (RunContext.steady_note _) fun _ => ?_
  refine .lift (RunContext.steady_emit _) fun _ => .lift RunContext.steady_time fun started => ?_
  refine .bind hw fun output => .lift RunContext.steady_time fun ended => ?_
  exact .lift (RunContext.steady_note _) fun _ => .lift (RunContext.steady_emit _) fun _ => .pure _

mutual

private theorem steady_perform (input : StepInput) : (n : Node) → Steady ctx (perform input ctx n)
  | .step s => s.steady_execute input
  | .steps name _ children => by
    unfold perform
    exact .bind (steady_runSequence children input) fun _ => .pure _
  | .condition name _ test children => by
    unfold perform
    refine .bind (.ofResult _) fun holds => .lift (RunContext.steady_emit _) fun _ => ?_
    split
    · exact .bind (steady_runSequence children input) fun _ => .pure _
    · exact .pure _
  | .loop name _ maxIterations ends children => by
    unfold perform
    exact .bind (Loop.steady_run (steady_runSequence children) input) fun _ => .pure _
  | .parallel name _ children => by
    unfold perform
    refine .lift (RunContext.steady_emit _) fun _ =>
      .lift (Fiber.Twins.all (steady_runAll input children)) fun results => ?_
    exact .bind (.ofResult _) fun output => .lift (RunContext.steady_emit _) fun _ => .pure _
  | .router name _ select choices => by
    unfold perform
    exact .bind (.ofResult _) fun choice => .lift (RunContext.steady_emit _) fun _ =>
      steady_runChoice input choice.name choices

theorem steady_runSequence : (nodes : List Node) → (input : StepInput) →
    Steady ctx (runSequence ctx nodes input)
  | [], input => .pure _
  | n :: rest, input => by
    unfold runSequence
    refine .bind (steady_reported (steady_perform input n)) fun output => ?_
    split
    · exact .pure _
    · exact .bind (steady_runSequence rest _) fun _ => .pure _

private theorem steady_runAll (input : StepInput) : (children : List Node) →
    List.Forall₂ (ctx.Twins Eq) (runAll input ctx children) (runAll input ctx children)
  | [] => .nil
  | n :: rest => .cons (steady_reported (steady_perform input n)) (steady_runAll input rest)

private theorem steady_runChoice (input : StepInput) (name : String) : (choices : List Node) →
    Steady ctx (runChoice input ctx name choices)
  | [] => .throw _
  | n :: rest => by
    unfold runChoice
    split
    · exact steady_reported (steady_perform input n)
    · exact steady_runChoice input name rest

end

/-- A node does the same in kin engines. -/
theorem steady_execute (n : Node) (input : StepInput) : Steady ctx (n.execute input ctx) :=
  steady_reported (steady_perform input n)

end Node

end WorkflowEngine
