import WorkflowEngine.Proofs.Workflow.Stages
import WorkflowEngine.Proofs.Workflow.Tours

/-!
# Stories of runs

How far a run has come while others act beside it, and what its journal tells by then: nothing new
before it begins, then what its work tells, and at last its end. Main statements: everything a run
evolves into is at one of these stages, and its journal tells a story of this kind.
-/

namespace WorkflowEngine

open Fiber

/-- What others may do beside a run. They leave its journal as it is and do not take its
cancellation back. -/
structure Company (runId : String) (token : Ref CancelToken) (e e' : Engine) : Prop where
  journal : e'.journal.of runId = e.journal.of runId
  cancelled : e.isCancelled token → e'.isCancelled token

/-- What the journal of a run tells of a fiber that works for it. -/
theorem Company.story {runId : String} {token : Ref CancelToken} {α : Type} {ctx : RunContext}
    (hid : ctx.runId = runId) {q q' : Fiber Engine α} {A : Account Happening α} {e e' : Engine}
    (hq : Fiber.Obeys ctx.discipline q A) (h : Evolves (Company runId token) q e q' e') :
    ∃ t, e'.journal.of runId = e.journal.of runId ++ t ∧ (∀ a ∈ t, a.isInner) ∧
      Fiber.Obeys ctx.discipline q' (A.after t) := by
  subst hid
  have htells {e e' : Engine} {t : List Happening} (h : ctx.Acts e t e') :
      e'.journal.of ctx.runId = e.journal.of ctx.runId ++ t ∧ ∀ a ∈ t, a.isInner :=
    ⟨h.of_journal, h.inner⟩
  exact hq.of_evolves htells (fun h => h.journal) h

namespace Workflow

/-- The record of a run that begins. -/
structure Initial (input : ExecutionInput) (runId : String) (run : WorkflowRun) : Prop where
  recordId : run.runId = runId
  status : run.status = .running
  media : run.media = input.media
  stepResponses : run.stepResponses = []
  failure : run.failure = none

/-- A run that has begun, after what its journal told before. -/
structure Begun (w : Workflow) (input : ExecutionInput) (runId : String) (token : Ref CancelToken)
    (feed : Option (Ref Feed)) (before : List Happening) (ctx : RunContext) (run : WorkflowRun)
    (base : SessionState) (e : Engine) : Prop extends Initial input runId run where
  contextId : ctx.runId = runId
  token : ctx.token = token
  feed : ctx.feed = feed
  journal : e.journal.of runId = before ++ [.began base]

/-- How far a run has come, after what its journal told before. -/
inductive Stage (w : Workflow) (input : ExecutionInput) (runId : String) (token : Ref CancelToken)
    (feed : Option (Ref Feed)) (before : List Happening) :
    Fiber Engine (Except Fault WorkflowRun) → Engine → Prop
  | entering {e : Engine} (hj : e.journal.of runId = before) :
      Stage w input runId token feed before (w.executeRun input runId token feed) e
  | refused {e : Engine} {fault : Fault} (hj : e.journal.of runId = before) :
      Stage w input runId token feed before (.done (.error fault)) e
  | starting {e : Engine} {sessionId : String} {committed : Ref SessionState}
      (hj : e.journal.of runId = before) :
      Stage w input runId token feed before
        (w.starting input runId token feed sessionId committed) e
  | working {e e' : Engine} {ctx : RunContext} {run : WorkflowRun} {base : SessionState}
      {committed : Ref SessionState} {q : Fiber Engine (WorkflowRun × Option Fault)}
      (hb : w.Begun input runId token feed before ctx run base e)
      (hw : Evolves (Company runId token) (w.work input ctx run) e q e') :
      Stage w input runId token feed before (q.bind (w.leave ctx committed base)) e'
  | left {e e₁ e' : Engine} {ctx : RunContext} {run run' : WorkflowRun} {fault : Option Fault}
      {base : SessionState} {committed : Ref SessionState}
      {p : Fiber Engine (Except Fault WorkflowRun)}
      (hb : w.Begun input runId token feed before ctx run base e)
      (hw : Evolves (Company runId token) (w.work input ctx run) e (.done (run', fault)) e₁)
      (hl : Evolves (Company runId token) (leaving ctx (run'.conclude fault))
        (w.endRun (run'.conclude fault) fault ctx.state committed base e₁) p e') :
      Stage w input runId token feed before p e'

variable {w : Workflow} {input : ExecutionInput} {runId : String} {token : Ref CancelToken}
  {feed : Option (Ref Feed)} {before : List Happening} {e e' : Engine}
  {p p' : Fiber Engine (Except Fault WorkflowRun)}

theorem journal_prepareSession {r : Except Fault (String × Ref SessionState)}
    (h : w.prepareSession e = (r, e')) : e'.journal = e.journal := by
  rcases prepareSession_cases w e h with ⟨-, -, rfl⟩ |
    ⟨-, ⟨_, _, _, -, -, rfl⟩ | ⟨_, _, _, -, -, rfl⟩⟩
  · rfl
  · rfl
  · rfl

/-- A run begins. -/
theorem begun_of_beginRun {sessionId : String} {committed : Ref SessionState} {ctx : RunContext}
    {run : WorkflowRun} {base : SessionState} (hj : e.journal.of runId = before)
    (h : w.beginRun input runId token feed sessionId committed e = ((ctx, run, base), e')) :
    w.Begun input runId token feed before ctx run base e' := by
  obtain ⟨stores, readings, now, hframe⟩ :=
    beginRun_frame w e input runId token feed sessionId committed
  rw [hframe] at h
  cases h
  exact ⟨⟨rfl, rfl, rfl, rfl, rfl⟩, rfl, rfl, rfl, by simp [hj]⟩

theorem Stage.moves (h : w.Stage input runId token feed before p e) (hm : Moves p e p' e') :
    w.Stage input runId token feed before p' e' := by
  cases h with
  | entering hj =>
    obtain ⟨-, r, hr, rfl⟩ := moves_executeRun hm
    have hj' : e'.journal.of runId = before := by rw [journal_prepareSession hr, hj]
    cases r with
    | error fault => exact .refused hj'
    | ok place => exact .starting hj'
  | refused hj => cases hm
  | starting hj =>
    obtain ⟨ctx, run, base, hbegin, rfl⟩ := moves_starting hm
    exact .working (begun_of_beginRun hj hbegin) .refl
  | working hb hw =>
    rcases moves_working hm with ⟨q, hq, rfl⟩ | ⟨run, fault, rfl, rfl, rfl⟩
    · exact .working hb (hw.move hq)
    · exact .left hb hw .refl
  | left hb hw hl => exact .left hb hw (hl.move hm)

theorem Stage.other (h : w.Stage input runId token feed before p e)
    (ho : Company runId token e e') : w.Stage input runId token feed before p e' := by
  cases h with
  | entering hj => exact .entering (ho.journal.trans hj)
  | refused hj => exact .refused (ho.journal.trans hj)
  | starting hj => exact .starting (ho.journal.trans hj)
  | working hb hw => exact .working hb (hw.other ho)
  | left hb hw hl => exact .left hb hw (hl.other ho)

/-- Everything a run evolves into is at one of its stages. -/
theorem stage_of_evolves
    (h : Evolves (Company runId token) (w.executeRun input runId token feed) e p e') :
    w.Stage input runId token feed (e.journal.of runId) p e' := by
  induction h with
  | refl => exact .entering rfl
  | move _ hm ih => exact ih.moves hm
  | other _ ho ih => exact ih.other ho

/-! ## What the journal tells -/

/-- What the journal tells of a run: nothing, what its work tells after it has begun, or all of it
up to its end. -/
inductive Told (w : Workflow) (input : ExecutionInput) (runId : String) : List Happening → Prop
  | nothing : Told w input runId []
  | under {base : SessionState} {run : WorkflowRun} {t : List Happening}
      {r : Option (WorkflowRun × Option Fault)} (hrun : Initial input runId run)
      (ht : w.account input run t r) (hi : ∀ a ∈ t, a.isInner) :
      Told w input runId (.began base :: t)
  | ended {base final : SessionState} {run run' : WorkflowRun} {t : List Happening}
      {fault : Option Fault} (hrun : Initial input runId run)
      (ht : w.account input run t (some (run', fault))) (hi : ∀ a ∈ t, a.isInner) :
      Told w input runId (.began base :: (t ++ [.ended fault (run'.conclude fault) final]))

variable {ctx : RunContext} {run run' : WorkflowRun} {base : SessionState} {e₁ : Engine}

/-- What the journal of a run tells while it works. -/
theorem Begun.story (hb : w.Begun input runId token feed before ctx run base e)
    {q : Fiber Engine (WorkflowRun × Option Fault)}
    (hw : Evolves (Company runId token) (w.work input ctx run) e q e') :
    ∃ t, e'.journal.of runId = before ++ .began base :: t ∧ (∀ a ∈ t, a.isInner) ∧
      Fiber.Obeys ctx.discipline q ((w.account input run).after t) := by
  obtain ⟨t, ht, hi, hq⟩ := Company.story hb.contextId (obeys_work w input run) hw
  exact ⟨t, by simp [ht, hb.journal], hi, hq⟩

theorem of_journal_endRun (run : WorkflowRun) (fault : Option Fault)
    (state committed : Ref SessionState) (e : Engine) :
    (w.endRun run fault state committed base e).journal.of run.runId =
      e.journal.of run.runId ++ [.ended fault run (e.states.get state)] := by
  obtain ⟨stores, readings, hframe⟩ := endRun_frame w e run fault state committed base
  rw [hframe]
  simp

/-- What the journal of a run tells when its work is over and it has ended. -/
theorem Begun.story_ended (hb : w.Begun input runId token feed before ctx run base e)
    {fault : Option Fault} {committed : Ref SessionState}
    (hw : Evolves (Company runId token) (w.work input ctx run) e (.done (run', fault)) e₁)
    (hl : Evolves (Company runId token) (leaving ctx (run'.conclude fault))
      (w.endRun (run'.conclude fault) fault ctx.state committed base e₁) p e') :
    ∃ t, w.account input run t (some (run', fault)) ∧ (∀ a ∈ t, a.isInner) ∧
      e₁.journal.of runId = before ++ .began base :: t ∧
      e'.journal.of runId = before ++ .began base :: t ++
        [.ended fault (run'.conclude fault) (e₁.states.get ctx.state)] := by
  obtain ⟨t, ht, hi, hq⟩ := hb.story hw
  have hq : w.account input run t (some (run', fault)) := (Account.after_nil_apply _ _ _).1 hq
  have hid : (run'.conclude fault).runId = runId :=
    (WorkflowRun.runId_conclude _ _).trans ((runId_of_account hq).trans hb.recordId)
  have hend : (w.endRun (run'.conclude fault) fault ctx.state committed base e₁).journal.of
      (run'.conclude fault).runId = _ := of_journal_endRun _ fault ctx.state committed e₁
  rw [hid] at hend
  obtain ⟨u, hu, -, hp⟩ := Company.story hb.contextId (silent_leaving ctx (run'.conclude fault)) hl
  obtain rfl : u = [] := by simpa [Account.after, Account.silent] using hp.now
  refine ⟨t, hq, hi, ht, ?_⟩
  rw [hu, hend, ht, List.append_nil]

/-- The journal tells how far a run has come. One that is over has told its end. -/
theorem Stage.told (h : w.Stage input runId token feed before p e) :
    ∃ t, e.journal.of runId = before ++ t ∧ w.Told input runId t ∧
      ∀ run, p = .done (.ok run) → ∃ fault final, .ended fault run final ∈ t := by
  cases h with
  | entering hj =>
    refine ⟨[], by simp [hj], .nothing, fun run hp => ?_⟩
    unfold executeRun at hp
    split at hp <;> cases hp
  | refused hj => exact ⟨[], by simp [hj], .nothing, fun _ hp => nomatch hp⟩
  | starting hj => exact ⟨[], by simp [hj], .nothing, fun _ hp => nomatch hp⟩
  | @working _ _ ctx run base committed q hb hw =>
    obtain ⟨t, ht, hi, hq⟩ := hb.story hw
    have hnow : w.account input run t q.value? := (Account.after_nil_apply _ _ _).1 hq.now
    refine ⟨_, ht, .under hb.toInitial hnow hi, fun run' hp => ?_⟩
    cases q <;> cases hp
  | left hb hw hl =>
    obtain ⟨t, ht, hi, -, hend⟩ := hb.story_ended hw hl
    refine ⟨_, hend.trans (List.append_assoc ..), .ended hb.toInitial ht hi, fun run' hp => ?_⟩
    rcases leaving_cases hl with rfl | rfl | ⟨f, event, -, rfl⟩ <;> cases hp
    exact ⟨_, _, List.mem_cons_of_mem _ (List.mem_append_right _ (List.mem_singleton.2 rfl))⟩

/-- A run whose end is told: its work evolved from where it began to its end. -/
theorem Stage.ended (h : w.Stage input runId token feed before p e) {t : List Happening}
    (ht : e.journal.of runId = before ++ t) {fault : Option Fault} {final : SessionState}
    (he : .ended fault run final ∈ t) :
    ∃ ctx run₀ base e₀ e₁ run' u, w.Begun input runId token feed before ctx run₀ base e₀ ∧
      Evolves (Company runId token) (w.work input ctx run₀) e₀ (.done (run', fault)) e₁ ∧
      run = run'.conclude fault ∧ w.account input run₀ u (some (run', fault)) ∧
      t = .began base :: (u ++ [.ended fault run final]) := by
  have hnothing (hj : e.journal.of runId = before) : False := by
    obtain rfl : t = [] := List.self_eq_append_right.1 (hj.symm.trans ht)
    cases he
  cases h with
  | entering hj | refused hj | starting hj => exact (hnothing hj).elim
  | working hb hw =>
    obtain ⟨u, hu, hi, -⟩ := hb.story hw
    obtain rfl := List.append_cancel_left (ht.symm.trans hu)
    rcases List.mem_cons.1 he with he | he
    · cases he
    · cases hi _ he
  | left hb hw hl =>
    obtain ⟨u, hu, hi, -, hend⟩ := hb.story_ended hw hl
    rw [List.append_assoc] at hend
    obtain rfl := List.append_cancel_left (ht.symm.trans hend)
    rcases List.mem_cons.1 he with he | he
    · cases he
    rcases List.mem_append.1 he with he | he
    · cases hi _ he
    cases List.mem_singleton.1 he
    exact ⟨_, _, _, _, _, _, u, hb, hw, rfl, hu, rfl⟩

end Workflow

end WorkflowEngine
