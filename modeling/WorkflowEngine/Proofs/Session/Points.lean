import WorkflowEngine.Proofs.Session.Effects
import WorkflowEngine.Proofs.Workflow.Outcomes
import WorkflowEngine.Proofs.Workflow.Stages

/-!
# Points on the way of a run

How far the fiber of a run has come, with what the rest of it goes by: its identifier, its session,
the place of the committed state and the state it began on. Every move leads from one point to the
same or the next one, and each step between points is one call on the session.
-/

namespace WorkflowEngine

namespace WorkflowRun

/-- The run of a context. -/
structure Of (ctx : RunContext) (run : WorkflowRun) : Prop where
  runId : run.runId = ctx.runId
  sessionId : run.sessionId = ctx.sessionId

/-- The run of a context while it works. A node may have failed already. -/
structure UnderWay (ctx : RunContext) (run : WorkflowRun) : Prop extends Of ctx run where
  status : run.status = .running ∨ run.status = .error

variable {ctx : RunContext} {run : WorkflowRun}

theorem UnderWay.note (h : UnderWay ctx run) (o : StepOutput) : UnderWay ctx (run.note o) where
  runId := (run.runId_note o).trans h.runId
  sessionId := (run.sessionId_note o).trans h.sessionId
  status := by
    rw [status_note]
    split
    · exact h.status
    · exact .inr rfl

theorem Of.conclude (h : Of ctx run) (fault : Option Fault) : Of ctx (run.conclude fault) where
  runId := (run.runId_conclude fault).trans h.runId
  sessionId := (run.sessionId_conclude fault).trans h.sessionId

/-- A run that is concluded has a status that it keeps. -/
theorem UnderWay.isTerminal (h : UnderWay ctx run) (fault : Option Fault) :
    (run.conclude fault).status.isTerminal = true := by
  unfold WorkflowRun.conclude
  rcases fault with _ | fault
  · rcases h.status with hs | hs <;> simp [hs, RunStatus.isTerminal]
  · cases fault <;> rfl

end WorkflowRun

/-- Nodes keep what a run is known by. -/
theorem underWay_of_tour {ctx : RunContext} {nodes : List Node} {input : StepInput}
    {run : WorkflowRun} {t : List Happening} {r : Option Toured} (h : Tour nodes input run t r)
    (hrun : run.UnderWay ctx) : ∀ out, r = some out → out.1.1.UnderWay ctx := by
  induction h with
  | finished hr => exact fun out h => hr out h ▸ hrun
  | under h => exact fun _ h => nomatch h
  | fault h => exact fun _ h => Option.some.inj h ▸ hrun
  | halted h ho => exact fun _ h => Option.some.inj h ▸ hrun.note _
  | next h ho hrest ih =>
    intro out h
    obtain ⟨⟨out', courses⟩, rfl, rfl⟩ := Option.map_eq_some_iff.1 h
    exact ih (hrun.note _) (out', courses) rfl

namespace Workflow

theorem underWay_of_account {w : Workflow} {input : ExecutionInput} {ctx : RunContext}
    {run : WorkflowRun} {t : List Happening} {out : WorkflowRun × Option Fault}
    (h : w.account input run t (some out)) (hrun : run.UnderWay ctx) : out.1.UnderWay ctx := by
  cases hp : w.plan with
  | nodes nodes =>
    rw [account, hp] at h
    obtain ⟨q, hq, hr⟩ := h
    obtain ⟨toured, rfl, rfl⟩ := Option.map_eq_some_iff.1 hr.symm
    exact underWay_of_tour hq hrun _ rfl
  | function f =>
    rw [account, hp] at h
    obtain ⟨content, fault, rfl⟩ := h.2 out rfl
    exact ⟨⟨hrun.runId, hrun.sessionId⟩, hrun.status⟩

/-- How far a run has come. -/
inductive Point where
  | called
  | entering (runId : String)
  | starting (runId sessionId : String) (committed : Ref SessionState)
  | working (ctx : RunContext) (committed : Ref SessionState) (base : SessionState)
  /-- It was recorded with its outcome and tells of it. -/
  | ended (ctx : RunContext) (run : WorkflowRun)
  /-- The session could not be prepared. -/
  | refused
  | aborted

/-- The identifier of a run that has one. -/
def Point.runId? : Point → Option String
  | entering runId | starting runId _ _ => some runId
  | working ctx _ _ | ended ctx _ => some ctx.runId
  | called | refused | aborted => none

/-- The fiber of a run stands at a point. -/
inductive At (home : Workflow) : Point → Fiber Engine (Except Fault WorkflowRun) → Prop
  | called {w : Workflow} {input : ExecutionInput} {token : Ref CancelToken} (hw : home.Shares w) :
      At home .called (w.run input token)
  | entering {w : Workflow} {input : ExecutionInput} {runId : String} {token : Ref CancelToken}
      {feed : Option (Ref Feed)} (hw : home.Shares w) :
      At home (.entering runId) (w.executeRun input runId token feed)
  | starting {w : Workflow} {input : ExecutionInput} {runId : String} {token : Ref CancelToken}
      {feed : Option (Ref Feed)} {sessionId : String} {committed : Ref SessionState}
      (hw : home.Shares w) :
      At home (.starting runId sessionId committed)
        (w.starting input runId token feed sessionId committed)
  | working {w : Workflow} {ctx : RunContext} {committed : Ref SessionState} {base : SessionState}
      {q : Fiber Engine (WorkflowRun × Option Fault)}
      {A : Account Happening (WorkflowRun × Option Fault)} (hw : home.Shares w)
      (hq : Fiber.Obeys ctx.discipline q A) (hA : ∀ t out, A t (some out) → out.1.UnderWay ctx) :
      At home (.working ctx committed base) (q.bind (w.leave ctx committed base))
  | ended {ctx : RunContext} {run : WorkflowRun} {p : Fiber Engine (Except Fault WorkflowRun)}
      {e e' : Engine} (hrun : run.Of ctx) (hterminal : run.status.isTerminal = true)
      (hp : Fiber.Evolves (fun _ _ => True) (leaving ctx run) e p e') : At home (.ended ctx run) p
  | refused {fault : Fault} : At home .refused (.done (.error fault))
  | aborted {message : String} : At home .aborted (.abort message)

/-- A run passes from one point to another, or acts at one. -/
inductive Passes (home : Workflow) : Point → Engine → Point → Engine → Prop
  | call {e : Engine} : Passes home .called e (.entering e.freshId.1) e.freshId.2
  | refuse {e e' : Engine} {runId : String} {fault : Fault}
      (h : home.prepareSession e = (.error fault, e')) :
      Passes home (.entering runId) e .refused e'
  | enter {e e' : Engine} {runId sessionId : String} {committed : Ref SessionState}
      (h : home.prepareSession e = (.ok (sessionId, committed), e')) :
      Passes home (.entering runId) e (.starting runId sessionId committed) e'
  | begin {w : Workflow} {input : ExecutionInput} {runId : String} {token : Ref CancelToken}
      {feed : Option (Ref Feed)} {sessionId : String} {committed : Ref SessionState}
      {e e' : Engine} {ctx : RunContext} {run : WorkflowRun} {base : SessionState}
      (hw : home.Shares w)
      (h : w.beginRun input runId token feed sessionId committed e = ((ctx, run, base), e')) :
      Passes home (.starting runId sessionId committed) e (.working ctx committed base) e'
  | work {ctx : RunContext} {committed : Ref SessionState} {base : SessionState} {e e' : Engine}
      {t : List Happening} (h : ctx.Acts e t e') :
      Passes home (.working ctx committed base) e (.working ctx committed base) e'
  | leave {w : Workflow} {ctx : RunContext} {committed : Ref SessionState} {base : SessionState}
      {e : Engine} {run : WorkflowRun} {fault : Option Fault} (hw : home.Shares w)
      (hrun : run.Of ctx) (hterminal : run.status.isTerminal = true) :
      Passes home (.working ctx committed base) e (.ended ctx run)
        (w.endRun run fault ctx.state committed base e)
  | tell {ctx : RunContext} {run : WorkflowRun} {e e' : Engine} (h : ctx.Acts e [] e') :
      Passes home (.ended ctx run) e (.ended ctx run) e'

/-- A run is aborted at a point. -/
inductive Aborts : Point → Engine → Engine → Prop
  | work {ctx : RunContext} {committed : Ref SessionState} {base : SessionState} {e e' : Engine}
      {t : List Happening} (h : ctx.Acts e t e') : Aborts (.working ctx committed base) e e'
  | again {e : Engine} : Aborts .aborted e e

variable {home w : Workflow} {e e' : Engine}

theorem Shares.prepareSession (hw : home.Shares w) (e : Engine) :
    w.prepareSession e = home.prepareSession e := by
  obtain ⟨hslot, hstore⟩ := hw
  unfold Workflow.prepareSession Workflow.session Workflow.storedSession modifySession
  rw [hslot, hstore]

/-- A run that begins is under way in its session. -/
theorem underWay_of_beginRun {input : ExecutionInput} {runId : String} {token : Ref CancelToken}
    {feed : Option (Ref Feed)} {sessionId : String} {committed : Ref SessionState}
    {ctx : RunContext} {run : WorkflowRun} {base : SessionState}
    (h : w.beginRun input runId token feed sessionId committed e = ((ctx, run, base), e')) :
    run.UnderWay ctx := by
  obtain ⟨stores, readings, now, hframe⟩ :=
    beginRun_frame w e input runId token feed sessionId committed
  rw [hframe] at h
  cases h
  exact ⟨⟨rfl, rfl⟩, .inl rfl⟩

/-- Every move of a run is a step between points. -/
theorem At.moves {point : Point} {p p' : Fiber Engine (Except Fault WorkflowRun)}
    (h : home.At point p) (hm : Fiber.Moves p e p' e') :
    ∃ point', home.Passes point e point' e' ∧ home.At point' p' := by
  cases h with
  | called hw =>
    cases hm
    exact ⟨_, .call, .entering hw⟩
  | entering hw =>
    obtain ⟨-, r, hr, rfl⟩ := moves_executeRun hm
    rw [hw.prepareSession] at hr
    cases r with
    | error fault => exact ⟨_, .refuse hr, .refused⟩
    | ok place => exact ⟨_, .enter hr, .starting hw⟩
  | starting hw =>
    obtain ⟨ctx, run, base, hb, rfl⟩ := moves_starting hm
    have hrun := underWay_of_beginRun hb
    exact ⟨_, .begin hw hb, .working hw (obeys_work _ _ run) fun t out h =>
      underWay_of_account h hrun⟩
  | working hw hq hA =>
    rcases moves_working hm with ⟨q', hq', rfl⟩ | ⟨run, fault, rfl, rfl, rfl⟩
    · obtain ⟨t, ht, hq'⟩ := hq.of_moves hq'
      exact ⟨_, .work ht, .working hw hq' fun u out hu => hA _ out hu⟩
    · have hrun := hA [] _ hq
      have hend := hrun.isTerminal fault
      exact ⟨_, .leave hw (hrun.conclude fault) hend,
        .ended (hrun.conclude fault) hend (.refl (s := e))⟩
  | ended hrun hterminal hp =>
    obtain ⟨ht, -⟩ := ((silent_leaving _ _).of_evolves hp).of_moves hm
    exact ⟨_, .tell ht, .ended hrun hterminal ((hp.other trivial).move hm)⟩
  | refused => cases hm
  | aborted => cases hm

/-- A run is aborted while it works. -/
theorem At.crashes {point : Point} {p : Fiber Engine (Except Fault WorkflowRun)}
    (h : home.At point p) (hc : Fiber.Crashes p e e') : Aborts point e e' := by
  cases h with
  | called hw => cases hc
  | @entering w input runId token feed hw =>
    unfold executeRun at hc
    split at hc <;> cases hc
  | starting hw => cases hc
  | working hw hq hA =>
    rcases Fiber.crashes_of_bind hc with hc | ⟨⟨run, fault⟩, -, hc⟩
    · obtain ⟨t, ht, -⟩ := Fiber.Obeys.of_crashes hc hq
      exact .work ht
    · cases hc
  | ended hrun hterminal hp =>
    rcases leaving_cases hp with rfl | rfl | ⟨f, event, -, rfl⟩ <;> cases hc
  | refused => cases hc
  | aborted =>
    cases hc
    exact .again

/-- A run that is over with a result was recorded with it. -/
theorem At.ended_of_done {point : Point} {run : WorkflowRun}
    (h : home.At point (.done (.ok run))) : ∃ ctx, point = .ended ctx run := by
  generalize hp : (Fiber.done (.ok run) : Fiber Engine (Except Fault WorkflowRun)) = p at h
  cases h with
  | called hw => cases hp
  | entering hw =>
    unfold executeRun at hp
    split at hp <;> cases hp
  | starting hw => cases hp
  | @working _ _ _ _ q A hw hq hA => cases q <;> cases hp
  | @ended ctx run' p e e' hrun hterminal hev =>
    rcases leaving_cases hev with rfl | rfl | ⟨f, event, -, rfl⟩ <;> cases hp
    exact ⟨ctx, rfl⟩
  | refused => cases hp
  | aborted => cases hp

/-- A fiber that has nothing left but to wait once and give its run. -/
private theorem At.ended_of_wait {point : Point} {run : WorkflowRun}
    {ready : Engine → Option (Unit × Engine)}
    (h : home.At point (.wait none ready fun _ => .done (.ok run))) :
    ∃ ctx, point = .ended ctx run := by
  generalize hp : (Fiber.wait none ready fun _ => .done (.ok run) :
    Fiber Engine (Except Fault WorkflowRun)) = p at h
  cases h with
  | called hw => cases hp
  | entering hw =>
    unfold executeRun at hp
    split at hp <;> cases hp
  | starting hw => cases hp
  | @working _ _ _ _ q A hw hq hA =>
    -- What a run does at its end is an act, not a result.
    cases q with
    | wait due ready' next =>
      injection hp with _ hβ _ _ hnext
      subst hβ
      have hnext := congrFun (eq_of_heq hnext) ()
      cases hn : next () <;> rw [hn] at hnext <;> cases hnext
    | _ => cases hp
  | @ended ctx run' p e e' hrun hterminal hev =>
    rcases leaving_cases hev with rfl | rfl | ⟨f, event, -, rfl⟩
    · cases hp
    · cases hp
    · injection hp with _ _ _ _ hnext
      have hrun := congrFun hnext ()
      cases hrun
      exact ⟨ctx, rfl⟩
  | refused => cases hp
  | aborted => cases hp

/-- A run that is about to tell of its end was recorded with its outcome. -/
theorem At.ended_of_leaving {point : Point} {ctx : RunContext} {run : WorkflowRun}
    (h : home.At point (leaving ctx run)) (e : Engine) : ∃ ctx', point = .ended ctx' run := by
  obtain ⟨p', e', hm, hp'⟩ : ∃ p' e', Fiber.Moves (leaving ctx run) e p' e' ∧
      (p' = .done (.ok run) ∨ ∃ ready, p' = .wait none ready fun _ => .done (.ok run)) := by
    refine ⟨_, _, .act, ?_⟩
    cases ctx.feed with
    | none => exact .inl rfl
    | some feed => exact .inr ⟨_, rfl⟩
  obtain ⟨hacts, -⟩ := (silent_leaving ctx run).of_moves hm
  obtain ⟨point', hpass, hat⟩ := h.moves hm
  obtain ⟨ctx', rfl⟩ : ∃ ctx', point' = .ended ctx' run := by
    rcases hp' with rfl | ⟨ready, rfl⟩
    · exact hat.ended_of_done
    · exact hat.ended_of_wait
  cases hpass with
  | @leave w _ committed base _ _ fault hw hrun hterminal =>
    -- The journal would have grown by the end of the run.
    have hj := hacts.journal
    rw [journal_endRun] at hj
    exact absurd (congrArg List.length hj) (by simp)
  | tell ht => exact ⟨ctx', rfl⟩

end Workflow

end WorkflowEngine
