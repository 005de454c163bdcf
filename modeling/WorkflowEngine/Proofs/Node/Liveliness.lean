import WorkflowEngine.Proofs.Fiber.Evolutions
import WorkflowEngine.Proofs.Node.Narration
import WorkflowEngine.Proofs.Node.Places
import WorkflowEngine.Proofs.Run.Liveliness

/-!
# Liveliness of nodes

No node waits for anything but its executors, room in the feed and time: it is lively when none of its
executors aborts. Main statement: wherever such a node stands, it comes to its end when its audience
goes on.
-/

namespace WorkflowEngine

open RunTask

variable {ctx : RunContext}

/-- An executor that does not abort, called or streamed. -/
def Executor.Steady (x : Executor) : Prop :=
  ∀ input ctx, (x.call input ctx).Steady ∧ (x.stream input ctx).Steady

/-- Trees in which no executor aborts. -/
def Node.Steady (nodes : List Node) : Prop :=
  ∀ s, .step s ∈ descendants nodes → s.executor.Steady

namespace Step

variable {s : Step}

private theorem lively_limited (hs : s.executor.Steady)
    (input : StepInput) (limit : Option Nat) :
    RunTask.Lively (audience ctx.feed) (s.limited limit (s.invoke input ctx)) := by
  have hsends (output : StepOutput) : Fiber.Lively (audience ctx.feed) (s.forward ctx output) := by
    unfold forward
    split
    · exact RunContext.lively_emit ctx _
    · trivial
  have hinvoke : RunTask.Lively (audience ctx.feed) (s.invoke input ctx) := by
    unfold invoke
    refine .update fun _ => ?_
    split
    · refine .bind ((hs _ _).2.lively hsends) fun output => ?_
      cases output <;> trivial
    · exact (hs _ _).1.lively fun event => event.elim
  unfold limited
  split
  · exact hinvoke
  · refine .update fun now => .lift ⟨hinvoke, fun _ => trivial⟩ fun r => ?_
    cases r <;> trivial

theorem lively_attempt (hs : s.executor.Steady) (input : StepInput)
    (limit : Option Nat) : RunTask.Lively (audience ctx.feed) (s.attempt input ctx limit) := by
  refine .lift ⟨lively_limited hs input limit, fun _ => trivial⟩ fun r => ?_
  cases r <;> trivial

theorem lively_attempts (hs : s.executor.Steady) (input : StepInput)
    (limit : Option Nat) (retries : Nat) :
    RunTask.Lively (audience ctx.feed) (s.attempts input ctx limit retries) := by
  have honce {otherwise : String → RunTask (Except String StepOutput)}
      (ho : ∀ message, RunTask.Lively (audience ctx.feed) (otherwise message)) :
      RunTask.Lively (audience ctx.feed) (attempts.once s input ctx limit otherwise) := by
    refine .bind .checkCancelled fun _ => .lift (lively_attempt hs input limit) fun r => ?_
    cases r with
    | ok output => trivial
    | error fault =>
      dsimp only
      split
      · trivial
      · exact ho _
  induction retries with
  | zero => exact honce fun _ => .pure _
  | succ retries ih => exact honce fun _ => ih

theorem lively_execute (hs : s.executor.Steady) (input : StepInput) :
    RunTask.Lively (audience ctx.feed) (s.execute input ctx) :=
  .update fun _ => .bind (lively_attempts hs input _ _) fun _ => .update fun _ => .pure _

end Step

namespace Loop

theorem lively_run {name : String} {maxIterations : Nat}
    {ends : Option (List StepOutput → Except String Bool)} {body : StepInput → RunTask Sequence}
    (hb : ∀ input, RunTask.Lively (audience ctx.feed) (body input))
    (input : StepInput) :
    RunTask.Lively (audience ctx.feed) (run name maxIterations ends ctx body input) := by
  have hturn (isLast : Bool) (done : List StepOutput) (input : StepInput)
      {otherwise : StepOutput → List StepOutput → StepInput → RunTask LoopResult}
      (ho : ∀ output done next, RunTask.Lively (audience ctx.feed) (otherwise output done next)) :
      RunTask.Lively (audience ctx.feed)
        (turn name maxIterations ends ctx body isLast done input otherwise) := by
    have hconclude (iteration : Nat) (output : StepOutput) (next : StepInput) :
        RunTask.Lively (audience ctx.feed)
          (turn.conclude name ends ctx isLast done otherwise iteration output next) := by
      refine .bind (.ofResult _) fun converged => .lift (RunContext.lively_emit ctx _) fun _ => ?_
      split
      · exact .pure _
      · exact ho _ _ _
    refine .bind .checkCancelled fun _ => .lift (RunContext.lively_emit ctx _) fun _ => ?_
    refine .bind (hb input) fun q => ?_
    cases q with
    | halted output => exact .lift (RunContext.lively_emit ctx _) fun _ => .pure _
    | completed output next produced => exact hconclude _ _ _
    | empty next => exact hconclude _ _ _
  have hiterate (left : Nat) (done : List StepOutput) (input : StepInput) :
      RunTask.Lively (audience ctx.feed)
        (iterate name maxIterations ends ctx body left done input) := by
    induction left generalizing done input with
    | zero => exact hturn _ _ _ fun _ _ _ => .pure _
    | succ left ih => exact hturn _ _ _ fun _ _ _ => ih _ _
  unfold run
  split
  · exact .throw _
  · exact hiterate _ _ _

end Loop

namespace Node

theorem Steady.children {n : Node} (h : Steady [n]) : Steady n.children :=
  fun s hs => h s (mem_descendants_children hs)

theorem Steady.head {n : Node} {rest : List Node} (h : Steady (n :: rest)) : Steady [n] :=
  fun s hs => h s (mem_descendants_of_mem (List.mem_cons_self ..) hs)

theorem Steady.tail {n : Node} {rest : List Node} (h : Steady (n :: rest)) : Steady rest :=
  fun s hs => h s (mem_descendants_tail hs)

private theorem lively_reported {n : Node} {input : StepInput} {work : RunTask StepOutput}
    (hw : RunTask.Lively (audience ctx.feed) work) :
    RunTask.Lively (audience ctx.feed) (n.reported input ctx work) := by
  refine .bind .checkCancelled fun _ => .update fun _ => ?_
  refine .lift (RunContext.lively_emit ctx _) fun _ => .update fun _ => .bind hw fun output => ?_
  exact .update fun _ => .update fun _ => .lift (RunContext.lively_emit ctx _) fun _ => .pure _

mutual

private theorem lively_perform (input : StepInput) : (n : Node) →
    Steady [n] → RunTask.Lively (audience ctx.feed) (perform input ctx n)
  | .step s, h => s.lively_execute (h s (by simp [descendants])) input
  | .steps name _ children, h => by
    unfold perform
    exact .bind (lively_runSequence children h.children input) fun _ => .pure _
  | .condition name _ test children, h => by
    unfold perform
    refine .bind (.ofResult _) fun holds => .lift (RunContext.lively_emit ctx _) fun _ => ?_
    split
    · exact .bind (lively_runSequence children h.children input) fun _ => .pure _
    · exact .pure _
  | .loop name _ maxIterations ends children, h => by
    unfold perform
    exact .bind (Loop.lively_run (lively_runSequence children h.children) input) fun _ => .pure _
  | .parallel name _ children, h => by
    unfold perform
    refine .lift (RunContext.lively_emit ctx _) fun _ => ?_
    refine .lift (.all (lively_runAll input children h.children)) fun results => ?_
    exact .bind (.ofResult _) fun output => .lift (RunContext.lively_emit ctx _) fun _ => .pure _
  | .router name _ select choices, h => by
    unfold perform
    exact .bind (.ofResult _) fun choice => .lift (RunContext.lively_emit ctx _) fun _ =>
      lively_runChoice input choice.name choices h.children

theorem lively_runSequence : (nodes : List Node) →
    Steady nodes → (input : StepInput) →
    RunTask.Lively (audience ctx.feed) (runSequence ctx nodes input)
  | [], _, input => .pure _
  | n :: rest, h, input => by
    unfold runSequence
    refine .bind (lively_reported (lively_perform input n h.head)) fun output => ?_
    split
    · exact .pure _
    · exact .bind (lively_runSequence rest h.tail _) fun _ => .pure _

private theorem lively_runAll (input : StepInput) :
    (children : List Node) → Steady children →
    ∀ p ∈ runAll input ctx children, Fiber.Lively (audience ctx.feed) p
  | [], _ => by simp [runAll]
  | n :: rest, h => by
    intro p hp
    rcases List.mem_cons.1 hp with rfl | hp
    · exact lively_reported (lively_perform input n h.head)
    · exact lively_runAll input rest h.tail p hp

private theorem lively_runChoice (input : StepInput) (name : String) :
    (choices : List Node) → Steady choices →
    RunTask.Lively (audience ctx.feed) (runChoice input ctx name choices)
  | [], _ => .throw _
  | n :: rest, h => by
    unfold runChoice
    split
    · exact lively_reported (lively_perform input n h.head)
    · exact lively_runChoice input name rest h.tail

end

/-- A node waits for nothing but its audience. -/
theorem lively_execute (n : Node) (h : Steady [n]) (input : StepInput) :
    RunTask.Lively (audience ctx.feed) (n.execute input ctx) :=
  lively_reported (lively_perform input n h)

/-- What a streamed run tells keeps its feed open to events. -/
theorem sound_of_evolves {o : Outlet} {α : Type} {p q : Fiber Engine α} {A : Account Telling α}
    {e e' : Engine} (hp : Fiber.Obeys o.discipline p A)
    (h : Fiber.Evolves (Reading o.feed) p e q e') (hs : (readership o.feed).sound e) :
    (readership o.feed).sound e' := by
  suffices (readership o.feed).sound e' ∧ ∃ B, Fiber.Obeys o.discipline q B from this.1
  induction h with
  | refl => exact ⟨hs, A, hp⟩
  | move _ hm ih =>
    obtain ⟨⟨f, hf, hcapacity⟩, B, hq⟩ := ih
    obtain ⟨t, ht, hq⟩ := hq.of_moves hm
    refine ⟨⟨f.put (Telling.deliveries t), ?_, ?_⟩, _, hq⟩
    · rw [ht.feed, hf]
      rfl
    · unfold Feed.put
      split <;> exact hcapacity
  | other _ ho ih => exact ⟨ho.sound ih.1, ih.2⟩

/-- Wherever a lively task of a run stands that tells of its run, it comes to its end when its audience
goes on. -/
theorem finishes_of_tells {α : Type} {others : Engine → Engine → Prop} {e e' : Engine}
    {p q : Fiber Engine α} (hp : Fiber.Lively (audience ctx.feed) p)
    (ht : ∀ feed, ctx.feed = some feed →
      ∃ A, Fiber.Obeys (Outlet.discipline ⟨ctx.runId, ctx.token, feed, ctx.bus⟩) p A)
    (he : Fiber.Evolves others p e q e') (hs : (audience ctx.feed).sound e') :
    ∃ r e'', Fiber.Evolves (audience ctx.feed).helps q e' (.done r) e'' := by
  have hlively : Fiber.Lively (audience ctx.feed) q := by
    clear hs
    induction he with
    | refl => exact hp
    | move _ hm ih => exact Fiber.Lively.of_moves hm ih
    | other _ _ ih => exact ih
  refine hlively.finishes fun q' e'' hq => ?_
  cases hfeed : ctx.feed with
  | none => trivial
  | some feed =>
    rw [hfeed] at hs hq
    obtain ⟨A, hobeys⟩ := ht feed hfeed
    obtain ⟨t, hobeys⟩ := hobeys.evolves he
    exact sound_of_evolves hobeys hq hs

/-- Wherever a node stands, it comes to its end when its audience goes on. -/
theorem finishes {n : Node} (h : Steady [n]) {input : StepInput}
    {others : Engine → Engine → Prop} {e e' : Engine} {p : Fiber Engine (Except Fault StepOutput)}
    (he : Fiber.Evolves others (n.execute input ctx).run e p e')
    (hs : (audience ctx.feed).sound e') :
    ∃ r e'', Fiber.Evolves (audience ctx.feed).helps p e' (.done r) e'' :=
  finishes_of_tells (n.lively_execute h input)
    (fun _ hfeed => ⟨_, tells_tale ⟨rfl, rfl, hfeed, rfl⟩ n input⟩) he hs

end Node

end WorkflowEngine
