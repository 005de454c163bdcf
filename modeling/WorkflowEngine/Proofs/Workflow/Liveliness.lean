import WorkflowEngine.Proofs.Fiber.Evolutions
import WorkflowEngine.Proofs.Node.Liveliness
import WorkflowEngine.Proofs.Workflow.Chronicles

/-!
# Liveliness of runs

A run waits for nothing but its nodes or its function, and for room in its feed. Main statement: wherever a
run stands in which nothing aborts, it comes to a result when its audience goes on.
-/

namespace WorkflowEngine.Workflow

open Fiber

/-- A workflow in which nothing aborts. -/
def Steady (w : Workflow) : Prop :=
  match w.plan with
  | .nodes nodes => Node.Steady nodes
  | .function f => ∀ input ctx, (f input ctx).Steady

variable {w : Workflow} {input : ExecutionInput} {runId : String} {token : Ref CancelToken}
  {feed : Option (Ref Feed)} {ctx : RunContext}

private theorem lively_runNodes {nodes : List Node} (h : Node.Steady nodes) (input : StepInput)
    (run : WorkflowRun) : Lively (audience ctx.feed) (runNodes ctx nodes input run) := by
  induction nodes generalizing input run with
  | nil => trivial
  | cons n rest ih =>
    unfold runNodes
    refine Lively.bind (n.lively_execute h.head input) fun r => ?_
    cases r with
    | error fault => trivial
    | ok output =>
      dsimp only
      split
      · trivial
      · exact ih h.tail _ _

private theorem lively_work (h : w.Steady) (run : WorkflowRun) :
    Lively (audience ctx.feed) (w.work input ctx run) := by
  refine Lively.bind (ctx.lively_emit _) fun _ => ?_
  unfold runPlan
  unfold Steady at h
  cases hp : w.plan with
  | nodes nodes =>
    rw [hp] at h
    exact lively_runNodes h _ _
  | function f =>
    rw [hp] at h
    refine Lively.bind ⟨(h input ctx).lively ctx.lively_emit, fun _ => trivial⟩ fun r => ?_
    rcases r with _ | _ | _ <;> trivial

/-- A run that works or ends waits for nothing but its audience. -/
private theorem lively_begun (hf : ctx.feed = feed) (h : w.Steady) (committed : Ref SessionState)
    (base : SessionState) (run : WorkflowRun) :
    Lively (audience feed) ((w.work input ctx run).bind (w.leave ctx committed base)) := by
  subst hf
  refine Lively.bind (lively_work h run) fun out => ?_
  obtain ⟨run, fault⟩ := out
  refine Lively.bind (fun _ => trivial) fun _ => ?_
  exact Lively.bind (ctx.lively_emitTerminal _) fun _ => trivial

/-- What a streamed run tells, whatever it is. -/
private theorem tells_anything {o : Outlet} (hc : o.Serves ctx) (committed : Ref SessionState)
    (base : SessionState) (run : WorkflowRun) :
    o.Obeys ((w.work input ctx run).bind (w.leave ctx committed base)) fun _ _ => True := by
  have hplan : o.Obeys (w.runPlan input ctx run) fun _ _ => True := by
    unfold runPlan
    cases w.plan with
    | nodes nodes => exact (tells_runNodes hc nodes _ run).mono fun _ _ _ => trivial
    | function f =>
      have hscript : o.Obeys ((f input ctx).run ctx ctx.emit) fun _ _ => True :=
        .script (fun event => (Outlet.Obeys.emit hc event).mono fun _ _ _ => trivial)
          (fun _ => trivial) (fun _ h => h) (fun _ _ _ _ h => h) (f input ctx)
      refine .bind (.cancellable hc hscript) (C := fun _ _ _ => True) (fun r => ?_)
        (fun _ _ => trivial) fun _ _ _ _ _ _ => trivial
      rcases r with _ | _ | _ <;> exact .done trivial
  have hwork : o.Obeys (w.work input ctx run) fun _ _ => True :=
    .bind (.emit hc _) (fun _ => hplan) (fun _ _ => trivial) fun _ _ _ _ _ _ => trivial
  refine .bind hwork (C := fun _ _ _ => True) (fun out => ?_) (fun _ _ => trivial) fun _ _ _ _ _ _ => trivial
  exact (tells_leave hc committed base out).mono fun _ _ _ => trivial

/-- A run that waits for its audience, and tells of what it does there. -/
private structure Attended (w : Workflow) (runId : String) (token : Ref CancelToken)
    (feed : Option (Ref Feed)) (p : Fiber Engine (Except Fault WorkflowRun)) : Prop where
  lively : Lively (audience feed) p
  obeys : ∀ f, feed = some f → ∃ A, Fiber.Obeys (Outlet.discipline ⟨runId, token, f, w.bus⟩) p A

/-- How far a run has come that nothing aborts. -/
private inductive Steps (w : Workflow) (input : ExecutionInput) (runId : String)
    (token : Ref CancelToken) (feed : Option (Ref Feed)) :
    Fiber Engine (Except Fault WorkflowRun) → Prop
  | entering : Steps w input runId token feed (w.executeRun input runId token feed)
  | starting {sessionId : String} {committed : Ref SessionState} :
      Steps w input runId token feed (w.starting input runId token feed sessionId committed)
  | attended {p : Fiber Engine (Except Fault WorkflowRun)} (h : w.Attended runId token feed p) :
      Steps w input runId token feed p

variable {p p' : Fiber Engine (Except Fault WorkflowRun)} {e e' : Engine}
  {others : Engine → Engine → Prop}

private theorem attended_done (r : Except Fault WorkflowRun) : w.Attended runId token feed (.done r) :=
  ⟨trivial, fun _ _ => ⟨fun _ _ => True, trivial⟩⟩

/-- The audience of a run stays sound while the feeds stay as they are. -/
private theorem sound_congr (h : e'.feeds = e.feeds) (hs : (audience feed).sound e) :
    (audience feed).sound e' := by
  cases feed with
  | none => trivial
  | some f =>
    obtain ⟨g, hg, hcapacity⟩ := hs
    exact ⟨g, h ▸ hg, hcapacity⟩

theorem feeds_prepareSession {r : Except Fault (String × Ref SessionState)}
    (h : w.prepareSession e = (r, e')) : e'.feeds = e.feeds := by
  rcases prepareSession_cases w e h with ⟨-, -, rfl⟩ |
    ⟨-, ⟨_, _, _, -, -, rfl⟩ | ⟨_, _, _, -, -, rfl⟩⟩
  · rfl
  · rfl
  · rfl

private theorem attended_of_starting {sessionId : String} {committed : Ref SessionState}
    (hs : w.Steady) (hm : Moves (w.starting input runId token feed sessionId committed) e p e') :
    w.Attended runId token feed p ∧ e'.feeds = e.feeds := by
  obtain ⟨ctx, run, base, hbegin, rfl⟩ := moves_starting hm
  obtain ⟨stores, readings, now, hframe⟩ :=
    beginRun_frame w e input runId token feed sessionId committed
  rw [hframe] at hbegin
  obtain ⟨hbegun, rfl⟩ := Prod.mk.inj hbegin
  obtain ⟨rfl, -⟩ := Prod.mk.inj hbegun
  exact ⟨⟨lively_begun (by rfl) hs committed base run, fun f hf =>
    ⟨_, tells_anything ⟨rfl, rfl, hf, rfl⟩ committed base run⟩⟩, rfl⟩

private theorem Steps.moves (h : w.Steps input runId token feed p) (hs : w.Steady)
    (hm : Moves p e p' e') : w.Steps input runId token feed p' := by
  cases h with
  | entering =>
    obtain ⟨-, r, -, rfl⟩ := moves_executeRun hm
    cases r with
    | error fault => exact .attended (attended_done _)
    | ok place => exact .starting
  | starting => exact .attended (attended_of_starting hs hm).1
  | attended h =>
    refine .attended ⟨h.lively.of_moves hm, fun f hf => ?_⟩
    obtain ⟨A, hA⟩ := h.obeys f hf
    obtain ⟨t, -, hp⟩ := hA.of_moves hm
    exact ⟨_, hp⟩

/-- A run that is attended comes to a result. -/
private theorem Attended.finishes (h : w.Attended runId token feed p) (hs : (audience feed).sound e) :
    ∃ r e', Evolves (audience feed).helps p e (.done r) e' := by
  refine h.lively.finishes fun q t hq => ?_
  cases feed with
  | none => trivial
  | some f =>
    obtain ⟨A, hA⟩ := h.obeys f rfl
    exact Node.sound_of_evolves hA hq hs

private theorem finishes_starting {sessionId : String} {committed : Ref SessionState} (hw : w.Steady)
    (hs : (audience feed).sound e) : ∃ r e', Evolves (audience feed).helps
      (w.starting input runId token feed sessionId committed) e (.done r) e' := by
  have hm : Moves (w.starting input runId token feed sessionId committed) e _ _ := .act
  obtain ⟨hattended, hfeeds⟩ := attended_of_starting hw hm
  obtain ⟨r, e', hend⟩ := hattended.finishes (sound_congr hfeeds hs)
  exact ⟨r, e', .head hm hend⟩

/-- Wherever a run stands in which nothing aborts, it comes to a result when its audience goes on. -/
theorem finishes (hw : w.Steady)
    (he : Evolves others (w.executeRun input runId token feed) e p e')
    (hs : (audience feed).sound e') :
    ∃ r e'', Evolves (audience feed).helps p e' (.done r) e'' := by
  have hstands : w.Steps input runId token feed p := by
    clear hs
    induction he with
    | refl => exact .entering
    | move _ hm ih => exact ih.moves hw hm
    | other _ _ ih => exact ih
  cases hstands with
  | starting => exact finishes_starting hw hs
  | attended h => exact h.finishes hs
  | entering =>
    cases hv : w.validate with
    | error fault =>
      rw [executeRun_refused hv]
      exact ⟨_, _, .refl⟩
    | ok =>
      rcases hp : w.prepareSession e' with ⟨_ | place, d⟩
      · exact ⟨_, _, .head (moves_of_prepareSession hv hp) .refl⟩
      · obtain ⟨r, e'', hend⟩ := finishes_starting hw (sound_congr (feeds_prepareSession hp) hs)
        exact ⟨r, e'', .head (moves_of_prepareSession hv hp) hend⟩

end WorkflowEngine.Workflow
