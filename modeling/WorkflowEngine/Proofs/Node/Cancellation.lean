import WorkflowEngine.Proofs.Fiber.Signals
import WorkflowEngine.Proofs.Step.Calls

/-!
# Cancellation of nodes

The cancellation of a run is a signal after which no executor is called. A task heeds it when work that was
stopped by it makes the task end with the fault of a cancelled run. Every node passes the cancellation of
its run on, at whatever depth the executor that it stops was called: a step makes it a fault, and every
other node hands that fault on, a parallel one before any fault of another child.
-/

namespace WorkflowEngine

open Fiber

/-! ## Tasks -/

namespace RunContext

variable {α : Type} {X : α → Prop}

/-- The signal that a run was cancelled. -/
def cancellation (ctx : RunContext) : Signal Engine Happening where
  toDiscipline := ctx.discipline
  given e := e.isCancelled ctx.token = true
  lasts h hs := h.tokens _ hs
  forbids := Happening.isCall

theorem heeds_update (ctx : RunContext) {step : Engine → α × Engine}
    (h : ∀ e, ctx.Acts e [] (step e).2) : Heeds ctx.cancellation (Fiber.update step) X :=
  ⟨fun e => ⟨[], h e, rfl⟩, fun _ => trivial⟩

theorem heeds_time (ctx : RunContext) : Heeds ctx.cancellation Fiber.time fun _ => False :=
  heeds_update ctx fun e => Acts.refl ctx e

theorem heeds_note (ctx : RunContext) {h : Happening} (hi : h.isInner) (hc : h.isCall = false) :
    Heeds ctx.cancellation (ctx.note h) fun _ => False :=
  ⟨fun e => ⟨[h], acts_note h hi e, by simp [cancellation, hc]⟩, fun _ => trivial⟩

/-- An event waits for room in the feed only as long as the run is not cancelled. -/
theorem heeds_emit (ctx : RunContext) (kind : EventKind) :
    Heeds ctx.cancellation (ctx.emit kind) fun _ => False := by
  unfold emit
  split
  · trivial
  refine Heeds.bind (X := fun _ => False)
    (heeds_update ctx fun e => (acts_readClock e).append (acts_publish _ _ _))
    (fun event => ?_) fun _ h => h.elim
  split
  · trivial
  rename_i feed _
  refine ⟨fun e he => ?_, fun e a e' h => ⟨[], ?_, rfl⟩, fun _ => trivial⟩
  · have hcancelled : e.isCancelled ctx.token = true := he
    simp [hcancelled]
  · exact acts_offer_or h

end RunContext

namespace RunTask

variable {α β : Type} {ctx : RunContext}

/-- A task that heeds the cancellation of its run: it ends as cancelled when work was stopped. -/
abbrev Heeds (ctx : RunContext) (t : RunTask α) : Prop :=
  Fiber.Heeds ctx.cancellation t.run (· = .error .cancelled)

namespace Heeds

theorem ofResult (q : Except Fault α) : Heeds ctx (RunTask.ofResult q) := trivial

theorem pure (a : α) : Heeds ctx (Pure.pure a) := trivial

theorem throw (fault : Fault) : Heeds ctx (MonadExcept.throw fault : RunTask α) := trivial

theorem bind {t : RunTask α} {f : α → RunTask β} (h : Heeds ctx t) (hf : ∀ a, Heeds ctx (f a)) :
    Heeds ctx (t >>= f) := by
  unfold Heeds
  rw [run_bind]
  refine Fiber.Heeds.bind h (fun r => ?_) fun r hr => ?_
  · cases r with
    | error fault => trivial
    | ok a => exact hf a
  · cases hr
    rfl

/-- A sequence that begins with a fiber. -/
theorem lift {p : Fiber Engine α} {f : α → RunTask β} {X : α → Prop}
    (h : Fiber.Heeds ctx.cancellation p X) (hf : ∀ a, Heeds ctx (f a))
    (hX : ∀ a, X a → Ends ctx.cancellation (f a).run (· = .error .cancelled)) :
    Heeds ctx (liftM p >>= f) := by
  unfold Heeds
  rw [run_lift_bind]
  exact Fiber.Heeds.bind h hf hX

/-- A sequence that begins with a fiber in which there is no work to stop. -/
theorem calm {p : Fiber Engine α} {f : α → RunTask β}
    (h : Fiber.Heeds ctx.cancellation p fun _ => False) (hf : ∀ a, Heeds ctx (f a)) :
    Heeds ctx (liftM p >>= f) :=
  lift h hf fun _ h => h.elim

/-- A sequence that goes on with the result of a task, but not after a cancellation. -/
theorem result {t : RunTask α} {f : Except Fault α → RunTask β} (h : Heeds ctx t)
    (hf : ∀ q, Heeds ctx (f q)) (hc : f (.error .cancelled) = MonadExcept.throw .cancelled) :
    Heeds ctx (t.result >>= f) := by
  refine lift (p := t.run) h hf ?_
  rintro q rfl
  rw [hc]
  rfl

theorem checkCancelled : Heeds ctx ctx.checkCancelled := by
  refine lift (X := fun _ => False) (RunContext.heeds_update ctx fun e => .refl ctx e)
    (fun cancelled => ?_) fun _ h => h.elim
  cases cancelled <;> trivial

end Heeds

end RunTask

/-! ## Steps and nodes -/

variable {ctx : RunContext}

namespace Step

theorem heeds_attempt (s : Step) (input : StepInput) (limit : Option Nat) :
    RunTask.Heeds ctx (s.attempt input ctx limit) := by
  unfold attempt
  refine .lift (X := (· = none)) ⟨fun e he => he, ⟨_, obeys_limited s input limit, ?_⟩, rfl,
    fun _ => trivial⟩ (fun r => ?_) ?_
  · rintro t r (rfl | rfl)
    · exact Nat.zero_le 1
    · exact Nat.le_refl 1
  · cases r <;> trivial
  · rintro _ rfl
    rfl

private theorem heeds_once {s : Step} {input : StepInput} {limit : Option Nat}
    {otherwise : String → RunTask (Except String StepOutput)}
    (ho : ∀ message, RunTask.Heeds ctx (otherwise message)) :
    RunTask.Heeds ctx (attempts.once s input ctx limit otherwise) := by
  unfold attempts.once
  refine .bind .checkCancelled fun _ => ?_
  refine .result (heeds_attempt s input limit) (fun q => ?_) rfl
  cases q with
  | ok output => trivial
  | error fault =>
    dsimp only
    split
    · trivial
    · exact ho _

theorem heeds_attempts (s : Step) (input : StepInput) (limit : Option Nat) (retries : Nat) :
    RunTask.Heeds ctx (s.attempts input ctx limit retries) := by
  induction retries with
  | zero => exact heeds_once fun _ => .pure _
  | succ retries ih => exact heeds_once fun _ => ih

theorem heeds_execute (s : Step) (input : StepInput) : RunTask.Heeds ctx (s.execute input ctx) := by
  unfold execute
  refine .calm (RunContext.heeds_time ctx) fun started => ?_
  refine .bind (heeds_attempts s input _ _) fun result => ?_
  exact .calm (RunContext.heeds_time ctx) fun ended => .pure _

end Step

namespace Loop

variable {name : String} {maxIterations : Nat}
  {ends : Option (List StepOutput → Except String Bool)} {body : StepInput → RunTask Sequence}

theorem heeds_turn {isLast : Bool} {done : List StepOutput} {input : StepInput}
    {otherwise : StepOutput → List StepOutput → StepInput → RunTask LoopResult}
    (hb : ∀ input, RunTask.Heeds ctx (body input))
    (ho : ∀ output done next, RunTask.Heeds ctx (otherwise output done next)) :
    RunTask.Heeds ctx (turn name maxIterations ends ctx body isLast done input otherwise) := by
  have hconclude (iteration : Nat) (output : StepOutput) (next : StepInput) :
      RunTask.Heeds ctx (turn.conclude name ends ctx isLast done otherwise iteration output next) := by
    refine .bind (.ofResult _) fun converged => .calm (RunContext.heeds_emit ctx _) fun _ => ?_
    split
    · exact .pure _
    · exact ho _ _ _
  refine .bind .checkCancelled fun _ => .calm (RunContext.heeds_emit ctx _) fun _ => ?_
  refine .bind (hb input) fun q => ?_
  cases q with
  | halted output => exact .calm (RunContext.heeds_emit ctx _) fun _ => .pure _
  | completed output next produced => exact hconclude _ _ _
  | empty next => exact hconclude _ _ _

theorem heeds_iterate (hb : ∀ input, RunTask.Heeds ctx (body input)) (left : Nat)
    (done : List StepOutput) (input : StepInput) :
    RunTask.Heeds ctx (iterate name maxIterations ends ctx body left done input) := by
  induction left generalizing done input with
  | zero => exact heeds_turn hb fun _ _ _ => .pure _
  | succ left ih => exact heeds_turn hb fun _ _ _ => ih _ _

theorem heeds_run (hb : ∀ input, RunTask.Heeds ctx (body input)) (input : StepInput) :
    RunTask.Heeds ctx (run name maxIterations ends ctx body input) := by
  cases maxIterations with
  | zero => trivial
  | succ left => exact heeds_iterate hb left [] input

end Loop

namespace Join

/-- A cancelled child decides, whatever the faults of the others. -/
theorem fault?_of_mem {results : List (Except Fault StepOutput)}
    (h : .error .cancelled ∈ results) : fault? results = some .cancelled := by
  induction results with
  | nil => cases h
  | cons r rest ih =>
    rcases List.mem_cons.1 h with rfl | hrest
    · rfl
    cases r with
    | ok output => exact ih hrest
    | error fault =>
      have hany : rest.any fault?.isCancelled := List.any_eq_true.2 ⟨_, hrest, rfl⟩
      by_cases hf : fault = .cancelled
      · rw [fault?, if_pos hf, hf]
      · rw [fault?, if_neg hf, if_pos hany]

theorem result_of_mem {name : String} {names : List String}
    {results : List (Except Fault StepOutput)} (h : .error .cancelled ∈ results) :
    result name names results = .error .cancelled := by
  rw [result, fault?_of_mem h]

end Join

namespace Node

theorem heeds_reported {n : Node} {input : StepInput} {work : RunTask StepOutput}
    (hw : RunTask.Heeds ctx work) : RunTask.Heeds ctx (n.reported input ctx work) := by
  unfold reported
  refine .bind .checkCancelled fun _ => .calm (RunContext.heeds_note ctx rfl rfl) fun _ => ?_
  refine .calm (RunContext.heeds_emit ctx _) fun _ => ?_
  refine .calm (RunContext.heeds_time ctx) fun started => .bind hw fun output => ?_
  refine .calm (RunContext.heeds_time ctx) fun ended => ?_
  exact .calm (RunContext.heeds_note ctx rfl rfl) fun _ =>
    .calm (RunContext.heeds_emit ctx _) fun _ => .pure _

mutual

private theorem heeds_perform (input : StepInput) (ctx : RunContext) : (n : Node) →
    RunTask.Heeds ctx (perform input ctx n)
  | .step s => s.heeds_execute input
  | .steps name _ children => by
    unfold perform
    exact .bind (heeds_runSequence ctx children input) fun _ => .pure _
  | .condition name _ test children => by
    unfold perform
    refine .bind (.ofResult _) fun holds => .calm (RunContext.heeds_emit ctx _) fun _ => ?_
    split
    · exact .bind (heeds_runSequence ctx children input) fun _ => .pure _
    · exact .pure _
  | .loop name _ maxIterations ends children => by
    unfold perform
    exact .bind (Loop.heeds_run (heeds_runSequence ctx children) input) fun _ => .pure _
  | .parallel name _ children => by
    unfold perform
    refine .calm (RunContext.heeds_emit ctx _) fun _ => ?_
    refine .lift (.all (heeds_runAll input ctx children)) (fun results => ?_) ?_
    · exact .bind (.ofResult _) fun output => .calm (RunContext.heeds_emit ctx _) fun _ => .pure _
    · rintro results ⟨_, hmem, rfl⟩
      rw [Join.result_of_mem hmem]
      rfl
  | .router name _ select choices => by
    unfold perform
    exact .bind (.ofResult _) fun choice => .calm (RunContext.heeds_emit ctx _) fun _ =>
      heeds_runChoice input ctx choice.name choices

private theorem heeds_runSequence (ctx : RunContext) : (nodes : List Node) → (input : StepInput) →
    RunTask.Heeds ctx (runSequence ctx nodes input)
  | [], input => .pure _
  | n :: rest, input => by
    unfold runSequence
    refine .bind (heeds_reported (heeds_perform input ctx n)) fun output => ?_
    split
    · exact .pure _
    · exact .bind (heeds_runSequence ctx rest _) fun _ => .pure _

private theorem heeds_runAll (input : StepInput) (ctx : RunContext) : (children : List Node) →
    ∀ p ∈ runAll input ctx children, Fiber.Heeds ctx.cancellation p (· = .error .cancelled)
  | [] => by simp [runAll]
  | n :: rest => by
    intro p hp
    rcases List.mem_cons.1 hp with rfl | hp
    · exact heeds_reported (heeds_perform input ctx n)
    · exact heeds_runAll input ctx rest p hp

private theorem heeds_runChoice (input : StepInput) (ctx : RunContext) (name : String) :
    (choices : List Node) → RunTask.Heeds ctx (runChoice input ctx name choices)
  | [] => .throw _
  | n :: rest => by
    unfold runChoice
    split
    · exact heeds_reported (heeds_perform input ctx n)
    · exact heeds_runChoice input ctx name rest

end

/-- A node heeds the cancellation of its run. -/
theorem heeds_execute (n : Node) (input : StepInput) (ctx : RunContext) :
    RunTask.Heeds ctx (n.execute input ctx) :=
  heeds_reported (heeds_perform input ctx n)

end Node

end WorkflowEngine
