import WorkflowEngine.Node.Execution
import WorkflowEngine.Proofs.Node.Places
import WorkflowEngine.Proofs.Run.Confined

/-!
# Confined nodes

Whatever a node waits for outside of streaming mode, it waits for a time. Main statement: a node whose
executors keep within a realm depends, run outside of streaming mode, on that realm and on how much time
goes by only, with all its retries and time limits.
-/

namespace WorkflowEngine

open RunTask

variable {r r' : Realm} {ctx : RunContext} {lag : Nat}

/-- Trees whose executors keep within a realm. -/
def Node.KeepTo (r : Realm) (nodes : List Node) : Prop :=
  ∀ s, .step s ∈ descendants nodes → s.executor.KeepsTo r

namespace Step

variable {s : Step}

private theorem alike_invoke (hf : ctx.feed = none) (hs : s.executor.KeepsTo r) (input : StepInput) :
    RunTask.Alike r ctx lag (s.invoke input ctx) (s.invoke input ctx) := by
  refine .lift (.note _) fun _ => ?_
  have hstream : ctx.isStreaming = false := by rw [RunContext.isStreaming, hf]; rfl
  rw [if_neg (by simp [hstream])]
  exact (hs _ _).alike fun event => event.elim

private theorem alike_limited {work : RunTask StepOutput} (limit : Option Nat)
    (h : RunTask.Alike r ctx lag work work) :
    RunTask.Alike r ctx lag (s.limited limit work) (s.limited limit work) := by
  unfold limited
  split
  · exact h
  · rename_i ms
    refine .time fun now => ?_
    have hwithin : Fiber.Alike r ctx lag
        (Fiber.within (now + allowance ms) (fun e => now + allowance ms ≤ e.now) work.run)
        (Fiber.within (now + lag + allowance ms) (fun e => now + lag + allowance ms ≤ e.now) work.run) := by
      rw [Nat.add_right_comm now lag]
      exact .limit h fun _ => .done _
    refine .lift hwithin fun q => ?_
    cases q with
    | some result => exact .ofResult result
    | none => exact .throw _

private theorem alike_attempts (hf : ctx.feed = none) (hs : s.executor.KeepsTo r) (input : StepInput)
    (limit : Option Nat) (retries : Nat) :
    RunTask.Alike r ctx lag (s.attempts input ctx limit retries)
      (s.attempts input ctx limit retries) := by
  have hattempt : RunTask.Alike r ctx lag (s.attempt input ctx limit) (s.attempt input ctx limit) := by
    have hguarded : Fiber.Alike r ctx lag
        (Fiber.cancellable (fun e => e.isCancelled ctx.token)
          (s.limited limit (s.invoke input ctx)).run)
        (Fiber.cancellable (fun e => e.isCancelled ctx.token)
          (s.limited limit (s.invoke input ctx)).run) :=
      .guarded (alike_limited limit (alike_invoke hf hs input)) fun _ => .done _
    refine .lift hguarded fun q => ?_
    cases q with
    | some result => exact .ofResult result
    | none => exact .throw _
  have honce {otherwise : String → RunTask (Except String StepOutput)}
      (ho : ∀ message, RunTask.Alike r ctx lag (otherwise message) (otherwise message)) :
      RunTask.Alike r ctx lag (attempts.once s input ctx limit otherwise)
        (attempts.once s input ctx limit otherwise) := by
    refine .bind .checkCancelled fun _ => .lift (p := (s.attempt input ctx limit).run) hattempt fun q => ?_
    cases q with
    | ok output => exact .pure _
    | error fault =>
      dsimp only
      split
      · exact .throw _
      · exact ho _
  induction retries with
  | zero => exact honce fun _ => .pure _
  | succ retries ih => exact honce fun _ => ih

theorem alike_execute (hf : ctx.feed = none) (hs : s.executor.KeepsTo r) (input : StepInput) :
    RunTask.Alike r ctx lag (s.execute input ctx) (s.execute input ctx) := by
  unfold execute
  refine .time fun started => .bind (alike_attempts hf hs input _ _) fun result => .time fun ended => ?_
  rw [Nat.add_sub_add_right]
  exact .pure _

end Step

namespace Loop

private theorem alike_run (hf : ctx.feed = none) {name : String} {maxIterations : Nat}
    {ends : Option (List StepOutput → Except String Bool)} {body : StepInput → RunTask Sequence}
    (hb : ∀ input, RunTask.Alike r ctx lag (body input) (body input)) (input : StepInput) :
    RunTask.Alike r ctx lag (run name maxIterations ends ctx body input)
      (run name maxIterations ends ctx body input) := by
  have hturn (isLast : Bool) (done : List StepOutput) (input : StepInput)
      {otherwise : StepOutput → List StepOutput → StepInput → RunTask LoopResult}
      (ho : ∀ output done next,
        RunTask.Alike r ctx lag (otherwise output done next) (otherwise output done next)) :
      RunTask.Alike r ctx lag
        (turn name maxIterations ends ctx body isLast done input otherwise)
        (turn name maxIterations ends ctx body isLast done input otherwise) := by
    have hconclude (iteration : Nat) (output : StepOutput) (next : StepInput) :
        RunTask.Alike r ctx lag
          (turn.conclude name ends ctx isLast done otherwise iteration output next)
          (turn.conclude name ends ctx isLast done otherwise iteration output next) := by
      refine .bind (.ofResult _) fun converged => .lift (.emit hf _) fun _ => ?_
      split
      · exact .pure _
      · exact ho _ _ _
    refine .bind .checkCancelled fun _ => .lift (.emit hf _) fun _ => ?_
    refine .bind (hb input) fun q => ?_
    cases q with
    | halted output => exact .lift (.emit hf _) fun _ => .pure _
    | completed output next produced => exact hconclude _ _ _
    | empty next => exact hconclude _ _ _
  have hiterate (left : Nat) (done : List StepOutput) (input : StepInput) :
      RunTask.Alike r ctx lag (iterate name maxIterations ends ctx body left done input)
        (iterate name maxIterations ends ctx body left done input) := by
    induction left generalizing done input with
    | zero => exact hturn _ _ _ fun _ _ _ => .pure _
    | succ left ih => exact hturn _ _ _ fun _ _ _ => ih _ _
  unfold run
  split
  · exact .throw _
  · exact hiterate _ _ _

end Loop

namespace Node

namespace KeepTo

variable {n : Node} {rest : List Node}

theorem children (h : KeepTo r [n]) : KeepTo r n.children :=
  fun s hs => h s (mem_descendants_children hs)

theorem head (h : KeepTo r (n :: rest)) : KeepTo r [n] :=
  fun s hs => h s (mem_descendants_of_mem (List.mem_cons_self ..) hs)

theorem tail (h : KeepTo r (n :: rest)) : KeepTo r rest :=
  fun s hs => h s (mem_descendants_tail hs)

theorem mono {nodes : List Node} (h : KeepTo r nodes) (hr : r.Under r') : KeepTo r' nodes :=
  fun s hs input ctx => (h s hs input ctx).mono hr

end KeepTo

private theorem alike_reported (hf : ctx.feed = none) {n : Node} {input : StepInput}
    {work : RunTask StepOutput} (hw : RunTask.Alike r ctx lag work work) :
    RunTask.Alike r ctx lag (n.reported input ctx work) (n.reported input ctx work) := by
  unfold reported
  refine .bind .checkCancelled fun _ => .lift (.note _) fun _ => .lift (.emit hf _) fun _ => ?_
  refine .time fun started => .bind hw fun output => .time fun ended => ?_
  rw [Nat.add_sub_add_right]
  exact .lift (.note _) fun _ => .lift (.emit hf _) fun _ => .pure _

theorem alike_all {ps : List (Fiber Engine α)} (h : ∀ p ∈ ps, Fiber.Alike r ctx lag p p) :
    Fiber.Alike r ctx lag (Fiber.all ps) (Fiber.all ps) := by
  induction ps with
  | nil => exact .done _
  | cons p rest ih =>
    exact .both (h p (by simp)) (ih fun q hq => h q (by simp [hq])) fun _ _ => .done _

mutual

private theorem alike_perform (hf : ctx.feed = none) (input : StepInput) : (n : Node) →
    KeepTo r [n] → RunTask.Alike r ctx lag (perform input ctx n) (perform input ctx n)
  | .step s, h => s.alike_execute hf (h s (by simp [descendants])) input
  | .steps name _ children, h => by
    unfold perform
    exact .bind (alike_runSequence hf children h.children input) fun _ => .pure _
  | .condition name _ test children, h => by
    unfold perform
    refine .bind (.ofResult _) fun holds => .lift (.emit hf _) fun _ => ?_
    split
    · exact .bind (alike_runSequence hf children h.children input) fun _ => .pure _
    · exact .pure _
  | .loop name _ maxIterations ends children, h => by
    unfold perform
    exact .bind (Loop.alike_run hf (alike_runSequence hf children h.children) input) fun _ => .pure _
  | .parallel name _ children, h => by
    unfold perform
    refine .lift (.emit hf _) fun _ => .lift (alike_all (alike_runAll hf input children h.children)) ?_
    exact fun results => .bind (.ofResult _) fun output => .lift (.emit hf _) fun _ => .pure _
  | .router name _ select choices, h => by
    unfold perform
    exact .bind (.ofResult _) fun choice => .lift (.emit hf _) fun _ =>
      alike_runChoice hf input choice.name choices h.children

private theorem alike_runSequence (hf : ctx.feed = none) : (nodes : List Node) →
    KeepTo r nodes → (input : StepInput) →
    RunTask.Alike r ctx lag (runSequence ctx nodes input) (runSequence ctx nodes input)
  | [], _, input => .pure _
  | n :: rest, h, input => by
    unfold runSequence
    refine .bind (alike_reported hf (alike_perform hf input n h.head)) fun output => ?_
    split
    · exact .pure _
    · exact .bind (alike_runSequence hf rest h.tail _) fun _ => .pure _

private theorem alike_runAll (hf : ctx.feed = none) (input : StepInput) :
    (children : List Node) → KeepTo r children →
    ∀ p ∈ runAll input ctx children, Fiber.Alike r ctx lag p p
  | [], _ => by simp [runAll]
  | n :: rest, h => by
    intro p hp
    rcases List.mem_cons.1 hp with rfl | hp
    · exact alike_reported hf (alike_perform hf input n h.head)
    · exact alike_runAll hf input rest h.tail p hp

private theorem alike_runChoice (hf : ctx.feed = none) (input : StepInput) (name : String) :
    (choices : List Node) → KeepTo r choices →
    RunTask.Alike r ctx lag (runChoice input ctx name choices) (runChoice input ctx name choices)
  | [], _ => .throw _
  | n :: rest, h => by
    unfold runChoice
    split
    · exact alike_reported hf (alike_perform hf input n h.head)
    · exact alike_runChoice hf input name rest h.tail

end

/-- Outside of streaming mode a node depends on the realm of its executors and on how much time goes by
only. -/
theorem alike_execute (hf : ctx.feed = none) {n : Node} (h : KeepTo r [n]) (input : StepInput) :
    RunTask.Alike r ctx lag (n.execute input ctx) (n.execute input ctx) :=
  alike_reported hf (alike_perform hf input n h)

end Node

end WorkflowEngine
