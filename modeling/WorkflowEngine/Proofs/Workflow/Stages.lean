import WorkflowEngine.Proofs.Run.Conduct
import WorkflowEngine.Proofs.Workflow.Frames
import WorkflowEngine.Workflow.Execution

/-!
# Stages of a run

The fiber of a run prepares its session, begins, works and ends. Each stage has one move of its own
that leads to the next one; only the work in between moves in ways of its own.
-/

namespace WorkflowEngine.Workflow

open Fiber

/-- A run whose session is prepared. -/
def starting (w : Workflow) (input : ExecutionInput) (runId : String) (token : Ref CancelToken)
    (feed : Option (Ref Feed)) (sessionId : String) (committed : Ref SessionState) :
    Fiber Engine (Except Fault WorkflowRun) :=
  (Fiber.update (w.beginRun input runId token feed sessionId committed)).bind
    fun (ctx, run, base) => (w.work input ctx run).bind (w.leave ctx committed base)

/-- What becomes of a run when the preparation of its session has come out. -/
def prepared (w : Workflow) (input : ExecutionInput) (runId : String) (token : Ref CancelToken)
    (feed : Option (Ref Feed)) :
    Except Fault (String × Ref SessionState) → Fiber Engine (Except Fault WorkflowRun)
  | .error fault => .done (.error fault)
  | .ok (sessionId, committed) => w.starting input runId token feed sessionId committed

/-- A run that has ended and tells of it. -/
def leaving (ctx : RunContext) (run : WorkflowRun) : Fiber Engine (Except Fault WorkflowRun) :=
  (ctx.emitTerminal run.terminalEvent).bind fun _ => .done (.ok run)

variable {w : Workflow} {input : ExecutionInput} {runId : String} {token : Ref CancelToken}
  {feed : Option (Ref Feed)} {e e' : Engine} {p : Fiber Engine (Except Fault WorkflowRun)}

theorem executeRun_refused {fault : Fault} (hv : w.validate = .error fault) :
    w.executeRun input runId token feed = .done (.error fault) := by
  unfold executeRun
  rw [hv]
  rfl

/-- A run of a valid workflow first prepares its session. -/
theorem executeRun_valid (hv : w.validate = .ok ()) : w.executeRun input runId token feed =
    .act w.prepareSession (w.prepared input runId token feed) := by
  unfold executeRun
  rw [hv]
  refine congrArg (Fiber.act _) (funext fun r => ?_)
  cases r <;> rfl

/-- A run of a valid workflow moves on when its session is prepared. -/
theorem moves_of_prepareSession {r : Except Fault (String × Ref SessionState)}
    (hv : w.validate = .ok ()) (hp : w.prepareSession e = (r, e')) :
    Moves (w.executeRun input runId token feed) e (w.prepared input runId token feed r) e' := by
  rw [executeRun_valid hv]
  have hm : Moves (.act w.prepareSession (w.prepared input runId token feed)) e _ _ := .act
  rwa [hp] at hm

/-- The first move of a run prepares its session. -/
theorem moves_executeRun (hm : Moves (w.executeRun input runId token feed) e p e') :
    w.validate = .ok () ∧ ∃ r, w.prepareSession e = (r, e') ∧
      p = match r with
        | .error fault => .done (.error fault)
        | .ok (sessionId, committed) => w.starting input runId token feed sessionId committed := by
  cases hv : w.validate with
  | error fault =>
    rw [executeRun_refused hv] at hm
    cases hm
  | ok =>
    rw [executeRun_valid hv] at hm
    cases hm
    refine ⟨rfl, (w.prepareSession e).1, rfl, ?_⟩
    cases (w.prepareSession e).1 <;> rfl

/-- A run begins on a copy of the committed state. -/
theorem moves_starting {sessionId : String} {committed : Ref SessionState}
    (hm : Moves (w.starting input runId token feed sessionId committed) e p e') :
    ∃ ctx run base, w.beginRun input runId token feed sessionId committed e =
      ((ctx, run, base), e') ∧ p = (w.work input ctx run).bind (w.leave ctx committed base) := by
  cases hm
  exact ⟨_, _, _, rfl, rfl⟩

/-- A run whose session is prepared moves on when it begins. -/
theorem moves_of_beginRun {sessionId : String} {committed : Ref SessionState} {ctx : RunContext}
    {run : WorkflowRun} {base : SessionState}
    (hb : w.beginRun input runId token feed sessionId committed e = ((ctx, run, base), e')) :
    Moves (w.starting input runId token feed sessionId committed) e
      ((w.work input ctx run).bind (w.leave ctx committed base)) e' := by
  have hm : Moves (w.starting input runId token feed sessionId committed) e _ _ := .act
  rwa [hb] at hm

/-- A run goes on working, or its work is over and it ends. -/
theorem moves_working {ctx : RunContext} {committed : Ref SessionState} {base : SessionState}
    {q : Fiber Engine (WorkflowRun × Option Fault)}
    (hm : Moves (q.bind (w.leave ctx committed base)) e p e') :
    (∃ q', Moves q e q' e' ∧ p = q'.bind (w.leave ctx committed base)) ∨
      ∃ run fault, q = .done (run, fault) ∧
        e' = w.endRun (run.conclude fault) fault ctx.state committed base e ∧
        p = leaving ctx (run.conclude fault) := by
  rcases moves_of_bind hm with ⟨q', hq, rfl⟩ | ⟨⟨run, fault⟩, rfl, hm⟩
  · exact .inl ⟨q', hq, rfl⟩
  · cases hm
    exact .inr ⟨run, fault, rfl, rfl, rfl⟩

theorem silent_leaving (ctx : RunContext) (run : WorkflowRun) : ctx.Silent (leaving ctx run) := by
  refine RunContext.Silent.bind ?_ fun _ => .done _
  refine RunContext.Silent.bind (RunContext.silent_announce ctx _) fun event => ?_
  split
  · exact .done ()
  · exact .await fun e a e' h => RunContext.acts_offer h

/-- A run that has ended tells of it, waits for room in the feed, or is over. -/
theorem leaving_cases {others : Engine → Engine → Prop} {ctx : RunContext} {run : WorkflowRun}
    (h : Evolves others (leaving ctx run) e p e') :
    p = leaving ctx run ∨ p = .done (.ok run) ∨ ∃ f event, ctx.feed = some f ∧
      p = .wait none (RunContext.offer? f event) fun _ => .done (.ok run) := by
  induction h with
  | refl => exact .inl rfl
  | move _ hm ih =>
    rcases ih with rfl | rfl | ⟨f, event, hf, rfl⟩
    · cases hm
      cases ctx.feed with
      | none => exact .inr (.inl rfl)
      | some f => exact .inr (.inr ⟨f, _, rfl, rfl⟩)
    · cases hm
    · cases hm
      exact .inr (.inl rfl)
  | other _ _ ih => exact ih

/-- A run whose work is over ends first. -/
theorem evolves_leave {others : Engine → Engine → Prop} {ctx : RunContext}
    {committed : Ref SessionState} {base : SessionState} {run : WorkflowRun} {fault : Option Fault}
    (h : Evolves others (w.leave ctx committed base (run, fault)) e p e') :
    p = w.leave ctx committed base (run, fault) ∨ ∃ e₁, Evolves others
      (leaving ctx (run.conclude fault))
      (w.endRun (run.conclude fault) fault ctx.state committed base e₁) p e' := by
  induction h with
  | refl => exact .inl rfl
  | move _ hm ih =>
    rcases ih with rfl | ⟨e₁, h⟩
    · cases hm
      exact .inr ⟨_, .refl⟩
    · exact .inr ⟨e₁, h.move hm⟩
  | other _ ho ih =>
    rcases ih with rfl | ⟨e₁, h⟩
    · exact .inl rfl
    · exact .inr ⟨e₁, h.other ho⟩

end WorkflowEngine.Workflow
