import WorkflowEngine.Executor.Ready
import WorkflowEngine.Proofs.Node.Cancellation
import WorkflowEngine.Proofs.Store.Records
import WorkflowEngine.Proofs.Workflow.Outcomes
import WorkflowEngine.Proofs.Workflow.Stories

/-!
# Cancellation of runs

Main statement: once a run of nodes is cancelled, no executor is called any more, work that was
under way is stopped within one turn and makes the run end as cancelled, and a run that ends so
leaves all session states as they are.
-/

namespace WorkflowEngine

open Fiber

/-- The shared state after a turn. -/
def Progress.state : Progress σ α → σ
  | done _ s | waiting _ s | aborted _ s => s

namespace Workflow

/-- A run that has ended, if its last event does not wait for room in the feed. -/
inductive Gone (feed : Option (Ref Feed)) (run : WorkflowRun) :
    Progress Engine (Except Fault WorkflowRun) → Prop
  | sent {e : Engine} : Gone feed run (.done (.ok run) e)
  | full {f : Ref Feed} {event : WorkflowEvent} {e : Engine} (hf : feed = some f)
      (hr : RunContext.offer? f event e = none) :
      Gone feed run (.waiting (.wait none (RunContext.offer? f event) fun _ => .done (.ok run)) e)

variable {w : Workflow} {nodes : List Node} {input : ExecutionInput} {runId : String}
  {token : Ref CancelToken} {feed : Option (Ref Feed)} {before : List Happening} {e e' : Engine}
  {p p' : Fiber Engine (Except Fault WorkflowRun)} {ctx : RunContext}

theorem heeds_runNodes (nodes : List Node) (input : StepInput) (run : WorkflowRun) :
    Heeds ctx.cancellation (runNodes ctx nodes input run) (·.2 = some .cancelled) := by
  induction nodes generalizing input run with
  | nil => trivial
  | cons n rest ih =>
    unfold runNodes
    refine Heeds.bind (n.heeds_execute input ctx) (fun r => ?_) ?_
    · cases r with
      | error fault => trivial
      | ok output =>
        dsimp only
        split
        · trivial
        · exact ih _ _
    · rintro _ rfl
      rfl

theorem heeds_work (hp : w.plan = .nodes nodes) (run : WorkflowRun) :
    Heeds ctx.cancellation (w.work input ctx run) (·.2 = some .cancelled) := by
  unfold work runPlan
  rw [hp]
  exact Heeds.bind (RunContext.heeds_emit ctx _) (fun _ => heeds_runNodes nodes _ run)
    fun _ h => h.elim

theorem gone_leaving (run : WorkflowRun) (e : Engine) :
    Gone ctx.feed run ((leaving ctx run).poll e) := by
  unfold leaving RunContext.emitTerminal
  cases ctx.feed with
  | none => exact .sent
  | some f =>
    change Gone (some f) run
      (Fiber.poll (.wait none (RunContext.offer? f _) fun _ => .done (.ok run)) _)
    rw [poll]
    split
    · exact .sent
    · rename_i hr
      exact .full rfl hr

/-! ## Moves -/

theorem tokens_prepareSession {r : Except Fault (String × Ref SessionState)}
    (h : w.prepareSession e = (r, e')) : e'.tokens = e.tokens := by
  rcases prepareSession_cases w e h with ⟨-, -, rfl⟩ |
    ⟨-, ⟨_, _, _, -, -, rfl⟩ | ⟨_, _, _, -, -, rfl⟩⟩
  · rfl
  · rfl
  · rfl

theorem tokens_endRun (run : WorkflowRun) (fault : Option Fault) (state committed : Ref SessionState)
    (base : SessionState) (e : Engine) :
    (w.endRun run fault state committed base e).tokens = e.tokens := by
  obtain ⟨stores, readings, hframe⟩ := endRun_frame w e run fault state committed base
  rw [hframe]

theorem Begun.given {run : WorkflowRun} {base : SessionState}
    (hb : w.Begun input runId token feed before ctx run base e) (he : e'.isCancelled token) :
    ctx.cancellation.given e' := by
  change e'.isCancelled ctx.token = true
  rwa [hb.token]

/-- A quiet move of a run: what it notes has no call in it, and a cancellation stays. -/
private def Quiet (runId : String) (token : Ref CancelToken) (e e' : Engine) : Prop :=
  ∃ t, e'.journal.of runId = e.journal.of runId ++ t ∧ t.countP Happening.isCall ≤ 1 ∧
    (e.isCancelled token → t.countP Happening.isCall = 0 ∧ e'.isCancelled token)

private theorem Quiet.of_tokens {t : List Happening} (ht : e'.tokens = e.tokens)
    (hj : e'.journal.of runId = e.journal.of runId ++ t) (hc : t.countP Happening.isCall = 0) :
    Quiet runId token e e' :=
  ⟨t, hj, by omega, fun he => ⟨hc, by rwa [Engine.isCancelled, ht]⟩⟩

/-- A move of a run begins one call at most, and none once the run is cancelled. -/
theorem Stage.quiet (hp : w.plan = .nodes nodes) (h : w.Stage input runId token feed before p e)
    (hm : Moves p e p' e') : Quiet runId token e e' := by
  cases h with
  | entering hj =>
    obtain ⟨-, r, hr, -⟩ := moves_executeRun hm
    exact .of_tokens (tokens_prepareSession hr) (t := []) (by simp [journal_prepareSession hr]) rfl
  | refused hj => cases hm
  | @starting _ sessionId committed hj =>
    obtain ⟨ctx, run, base, hbegin, -⟩ := moves_starting hm
    have hb := begun_of_beginRun rfl hbegin
    obtain ⟨stores, readings, now, hframe⟩ :=
      beginRun_frame w e input runId token feed sessionId committed
    refine .of_tokens ?_ hb.journal rfl
    exact (congrArg Engine.tokens (congrArg Prod.snd (hbegin.symm.trans hframe))).trans rfl
  | @working e₀ _ ctx run base committed q hb hw =>
    rcases moves_working hm with ⟨q', hq, -⟩ | ⟨run', fault, rfl, rfl, -⟩
    · obtain ⟨⟨t, ht, hone, hnone⟩, -⟩ := ((heeds_work hp run).of_evolves hw).of_moves hq
      have hj := RunContext.Acts.of_journal ht
      rw [hb.contextId] at hj
      exact ⟨t, hj, hone, fun he => ⟨hnone (hb.given he), RunContext.Acts.tokens ht token he⟩⟩
    · obtain ⟨t, -, -, hj, hend⟩ := hb.story_ended hw .refl
      exact .of_tokens (tokens_endRun ..) (hend.trans (congrArg (· ++ _) hj.symm)) rfl
  | @left e₀ e₁ _ ctx run run' fault base committed _ hb hw hl =>
    have hacts := (((silent_leaving ctx _).of_evolves hl).of_moves hm).1
    have hj := hacts.of_journal
    rw [hb.contextId] at hj
    exact ⟨[], hj, Nat.zero_le 1, fun he => ⟨rfl, hacts.tokens token he⟩⟩

/-- Once a run is cancelled no call of it begins, whatever it evolves into. -/
theorem Stage.no_calls (hp : w.plan = .nodes nodes) (h : w.Stage input runId token feed before p e)
    (hc : e.isCancelled token) (he : Evolves (Company runId token) p e p' e') :
    e'.isCancelled token ∧ (e'.journal.of runId).filter Happening.isCall =
      (e.journal.of runId).filter Happening.isCall := by
  have hall : w.Stage input runId token feed before p' e' ∧ e'.isCancelled token ∧
      (e'.journal.of runId).filter Happening.isCall =
        (e.journal.of runId).filter Happening.isCall := by
    induction he with
    | refl => exact ⟨h, hc, rfl⟩
    | move _ hm ih =>
      obtain ⟨hs, hc', hj⟩ := ih
      obtain ⟨t, ht, -, hquiet⟩ := hs.quiet hp hm
      have hnone : t.filter Happening.isCall = [] := by
        simpa [List.countP_eq_length_filter] using (hquiet hc').1
      exact ⟨hs.moves hm, (hquiet hc').2, by rw [ht, List.filter_append, hnone, List.append_nil, hj]⟩
    | other _ ho ih =>
      obtain ⟨hs, hc', hj⟩ := ih
      exact ⟨hs.other ho, ho.cancelled hc', by rw [ho.journal, hj]⟩
  exact hall.2

/-! ## Stopped work -/

/-- A run with work under way that may be stopped is working on a tour that will end as cancelled. -/
theorem Stage.working_of_stoppable (h : w.Stage input runId token feed before p e)
    (hs : p.isStoppable) : ∃ e₀ ctx run base committed q,
      w.Begun input runId token feed before ctx run base e₀ ∧
      Evolves (Company runId token) (w.work input ctx run) e₀ q e ∧ q.isStoppable ∧
      p = q.bind (w.leave ctx committed base) := by
  cases h with
  | entering hj =>
    cases hv : w.validate with
    | error fault =>
      rw [executeRun_refused hv] at hs
      cases hs
    | ok =>
      unfold executeRun at hs
      rw [hv] at hs
      cases hs
  | refused hj | starting hj => cases hs
  | @working e₀ _ ctx run base committed q hb hw =>
    rcases stoppable_of_bind hs with hq | ⟨out, -, hk⟩
    · exact ⟨e₀, ctx, run, base, committed, q, hb, hw, hq, rfl⟩
    · cases hk
  | left hb hw hl =>
    rcases leaving_cases hl with rfl | rfl | ⟨f, event, -, rfl⟩ <;> cases hs

theorem acts_poll {α : Type} {q : Fiber Engine α} (h : ctx.Silent q) (e : Engine) :
    ctx.Acts e [] (q.poll e).state := by
  have htells := h.tells_poll e
  cases hp : q.poll e with
  | done a e' =>
    rw [hp] at htells
    obtain ⟨t, ht, rfl⟩ := htells
    exact ht
  | waiting q' e' =>
    rw [hp] at htells
    obtain ⟨t, ht, hq⟩ := htells
    obtain rfl : t = [] := by simpa [Account.after, Account.silent] using hq.now
    exact ht
  | aborted message e' =>
    rw [hp] at htells
    obtain ⟨t, ht, rfl⟩ := htells
    exact ht

/-- The next turn of a cancelled run stops the work under way and ends the run. -/
theorem Stage.gone (hp : w.plan = .nodes nodes) (h : w.Stage input runId token feed before p e)
    (hc : e.isCancelled token) (hs : p.isStoppable) :
    ∃ run final t, run.status = .cancelled ∧ Gone feed run (p.poll e) ∧
      (p.poll e).state.journal.of runId =
        e.journal.of runId ++ t ++ [.ended (some .cancelled) run final] ∧
      t.countP Happening.isCall = 0 := by
  obtain ⟨e₀, ctx, run, base, committed, q, hb, hw, hq, rfl⟩ := h.working_of_stoppable hs
  have hends := ((heeds_work hp run).of_evolves hw).ends_of_stoppable hq
  obtain ⟨⟨run', fault⟩, e₁, t, hpoll, hfault, hacts, hcount⟩ := hends.poll (hb.given hc)
  obtain rfl : fault = some .cancelled := hfault
  have hq' : Evolves (Company runId token) q e (.done (run', some .cancelled)) e₁ :=
    evolves_of_poll_done hpoll
  obtain ⟨u, -, -, hj, hend⟩ := hb.story_ended (hw.trans hq')
    (.refl : Evolves _ _ (w.endRun _ _ _ committed base e₁) _ _)
  have hturn : (q.bind (w.leave ctx committed base)).poll e =
      (leaving ctx (run'.conclude (some .cancelled))).poll (w.endRun
        (run'.conclude (some .cancelled)) (some .cancelled) ctx.state committed base e₁) := by
    rw [poll_bind, hpoll]
    rfl
  have hleft := (acts_poll (silent_leaving ctx (run'.conclude (some .cancelled))) (w.endRun
    (run'.conclude (some .cancelled)) (some .cancelled) ctx.state committed base e₁)).of_journal
  have hwork := RunContext.Acts.of_journal hacts
  rw [hb.contextId] at hleft hwork
  refine ⟨run'.conclude (some .cancelled), e₁.states.get ctx.state, t, rfl, ?_, ?_, hcount⟩
  · rw [hturn, ← hb.feed]
    exact gone_leaving _ _
  · rw [hturn, hleft, hend, ← hj, hwork, List.append_nil]

/-- However the strands of a cancelled run with work under way go on, it can only end as
cancelled. -/
theorem Stage.done_cancelled (hp : w.plan = .nodes nodes)
    (h : w.Stage input runId token feed before p e) (hc : e.isCancelled token)
    (hs : p.isStoppable) {r : Except Fault WorkflowRun}
    (he : Evolves (Company runId token) p e (.done r) e') :
    ∃ run, r = .ok run ∧ run.status = .cancelled := by
  obtain ⟨e₀, ctx, run, base, committed, q, hb, hw, hq, rfl⟩ := h.working_of_stoppable hs
  have hends := ((heeds_work hp run).of_evolves hw).ends_of_stoppable hq
  have hlasts {e e' : Engine} (ho : Company runId token e e')
      (hg : ctx.cancellation.given e) : ctx.cancellation.given e' := by
    have htoken : e.isCancelled ctx.token = true := hg
    exact hb.given (ho.cancelled (hb.token ▸ htoken))
  rcases evolves_of_bind he with ⟨q', -, hq'⟩ | ⟨⟨run', fault⟩, e₁, hwork, hleave⟩
  · cases q' with
    | done out => cases hq'
    | act step next | wait due ready next | race before after due body next
    | both left right next | abort message => cases hq'
  · obtain rfl : fault = some .cancelled := (hends.of_evolves hlasts (hb.given hc) hwork).1
    rcases evolves_leave hleave with hdone | ⟨e₂, hleft⟩
    · cases hdone
    · rcases leaving_cases hleft with hl | hl | ⟨f, event, -, hl⟩
      · cases hl
      · cases hl
        exact ⟨_, rfl, rfl⟩
      · cases hl

/-! ## The end of a cancelled run -/

/-- A run that is not completed merges nothing. -/
theorem endRun_of_ne {run : WorkflowRun} (hs : run.status ≠ .completed) (fault : Option Fault)
    (state committed : Ref SessionState) (base : SessionState) (e : Engine) :
    w.endRun run fault state committed base e = ((w.persist run committed e).2).note run.runId
      (.ended fault run (e.states.get state)) := by
  rw [endRun_eq, if_neg hs]

/-- A run that ends as cancelled has no failure, leaves all session states as they are, and stands
so in a working store. -/
theorem Stage.end_cancelled (hp : w.plan = .nodes nodes)
    (h : w.Stage input runId token feed before p e) (hm : Moves p e p' e')
    {fault : Option Fault} {run : WorkflowRun} {final : SessionState}
    (hj : e'.journal.of runId = e.journal.of runId ++ [.ended fault run final])
    (hs : run.status = .cancelled) :
    fault = some .cancelled ∧ run.failure = none ∧ e'.states = e.states ∧
      ∀ store, w.store = some store → store.index < e.stores.items.length →
        (e.stores.get store).Working run.sessionId →
        ∃ record, (e'.stores.get store).Holds record ∧ record.sessionId = run.sessionId ∧
          record.run? runId = some run := by
  have hends {t : List Happening} (ht : e'.journal.of runId = e.journal.of runId ++ t) :
      t = [.ended fault run final] := List.append_cancel_left (ht.symm.trans hj)
  cases h with
  | entering hj₀ =>
    obtain ⟨-, r, hr, -⟩ := moves_executeRun hm
    cases hends (t := []) (by simp [journal_prepareSession hr])
  | refused hj₀ => cases hm
  | starting hj₀ =>
    obtain ⟨ctx, run, base, hbegin, -⟩ := moves_starting hm
    cases hends (begun_of_beginRun rfl hbegin).journal
  | @working e₀ _ ctx run₀ base committed q hb hw =>
    rcases moves_working hm with ⟨q', hq, -⟩ | ⟨run', fault', rfl, rfl, -⟩
    · obtain ⟨t, ht, -⟩ := (((heeds_work hp run₀).of_evolves hw).of_moves hq).1
      have hacts : ctx.Acts e t e' := ht
      have hj' := hacts.of_journal
      rw [hb.contextId] at hj'
      have hinner := hacts.inner (.ended fault run final) (by simp [hends hj'])
      cases hinner
    · obtain ⟨t, htour, -, hj₁, hend⟩ := hb.story_ended hw
        (.refl : Evolves _ _ (w.endRun _ _ _ committed base e) _ _)
      cases hends (hend.trans (congrArg (· ++ _) hj₁.symm))
      rw [account, hp] at htour
      obtain ⟨_ | toured, htour, hr⟩ := htour
      · cases hr
      obtain ⟨out, courses⟩ := toured
      cases hr
      have hstatus := status_of_tour htour hb.status hb.failure rfl
      obtain ⟨rfl, hfailure⟩ := cancelled_of_conclude hstatus hs
      have hid : (run'.conclude (some .cancelled)).runId = runId :=
        (WorkflowRun.runId_conclude _ _).trans ((runId_of_tour htour _ rfl).trans hb.recordId)
      rw [endRun_of_ne (by simp [hs])]
      refine ⟨rfl, hfailure, ?_, fun store hstore hplace hworking => ?_⟩
      · obtain ⟨stores, readings, hframe⟩ :=
          persist_frame w e (run'.conclude (some .cancelled)) committed
        rw [hframe]
        rfl
      · obtain ⟨record, hholds, hsession, hrun⟩ :=
          holds_persist (run'.conclude (some .cancelled)) committed hstore hplace hworking
        rw [hid] at hrun
        exact ⟨record, hholds, hsession, hrun⟩
  | @left e₀ e₁ _ ctx run run' fault base committed _ hb hw hl =>
    have hj' := (((silent_leaving ctx _).of_evolves hl).of_moves hm).1.of_journal
    rw [hb.contextId] at hj'
    cases hends hj'

/-! ## Cancelled runs -/

/-- Cancellation is safe, wherever a run of nodes has come to: a move of it begins one call of an
executor at most; once it is cancelled no call begins any more; work that was under way by then is
stopped in the next turn and the run ends as cancelled, in whatever order its strands move; and a run
that ends as cancelled has no failure, leaves all session states as they are and stands so in a
working store. -/
theorem cancellation_safe (hp : w.plan = .nodes nodes)
    (h : Evolves (Company runId token) (w.executeRun input runId token feed) e p e') :
    (∀ p'' e'', Moves p e' p'' e'' → ∃ t, e''.journal.of runId = e'.journal.of runId ++ t ∧
      t.countP Happening.isCall ≤ 1 ∧
      (e'.isCancelled token → t.countP Happening.isCall = 0)) ∧
    (e'.isCancelled token →
      (∀ p'' e'', Evolves (Company runId token) p e' p'' e'' → e''.isCancelled token ∧
        (e''.journal.of runId).filter Happening.isCall =
          (e'.journal.of runId).filter Happening.isCall) ∧
      (p.isStoppable →
        (∃ run final t, run.status = .cancelled ∧ Gone feed run (p.poll e') ∧
          (p.poll e').state.journal.of runId =
            e'.journal.of runId ++ t ++ [.ended (some .cancelled) run final] ∧
          t.countP Happening.isCall = 0) ∧
        ∀ r e'', Evolves (Company runId token) p e' (.done r) e'' →
          ∃ run, r = .ok run ∧ run.status = .cancelled)) ∧
    ∀ p'' e'' fault run final, Moves p e' p'' e'' →
      e''.journal.of runId = e'.journal.of runId ++ [.ended fault run final] →
      run.status = .cancelled →
      fault = some .cancelled ∧ run.failure = none ∧ e''.states = e'.states ∧
        ∀ store, w.store = some store → store.index < e'.stores.items.length →
          (e'.stores.get store).Working run.sessionId →
          ∃ record, (e''.stores.get store).Holds record ∧ record.sessionId = run.sessionId ∧
            record.run? runId = some run := by
  have hstage := stage_of_evolves h
  refine ⟨fun p'' e'' hm => ?_, fun hc => ⟨fun p'' e'' he => hstage.no_calls hp hc he,
    fun hs => ⟨hstage.gone hp hc hs, fun r e'' he => hstage.done_cancelled hp hc hs he⟩⟩,
    fun p'' e'' fault run final hm hj hs => hstage.end_cancelled hp hm hj hs⟩
  obtain ⟨t, ht, hone, hquiet⟩ := hstage.quiet hp hm
  exact ⟨t, ht, hone, fun hc => (hquiet hc).1⟩

private def long : Step where
  name := "long"
  executor := .slow "nap" 9 (.text "slept")
  maxRetries := some 2

private def short : Step where
  name := "short"
  executor := .slow "nap" 5 (.text "slept")

/-- Two naps side by side, one of them within a group and with retries left. -/
private def napping : Workflow where
  id := "napping"
  name := "napping"
  plan := .nodes [.loop "again" none 3 none
    [.parallel "both" none [.steps "group" none [.step long], .step short]]]
  slot := ⟨0⟩

private def bedtime : Engine :=
  { start := ⟨0, 0⟩
    states := ⟨[∅]⟩
    tokens := ⟨[{}]⟩
    slots := ⟨[{ id := "session", state := ⟨0⟩ }]⟩ }

/-- A run that is cancelled during two naps ends at once. -/
theorem cancellation_safe_napping :
    ∃ nodes, napping.plan = .nodes nodes ∧ ∃ p e,
      Evolves (Company "run" ⟨0⟩) (napping.executeRun {} "run" ⟨0⟩ none) bedtime p e ∧
      e.isCancelled ⟨0⟩ ∧ p.isStoppable ∧
      ∃ run, run.status = .cancelled ∧ Gone none run (p.poll e) := by
  refine ⟨_, rfl, ?_⟩
  have hwaits : (match (napping.executeRun {} "run" ⟨0⟩ none).poll bedtime with
      | .waiting p e => p.isStoppable && (e.cancel ⟨0⟩).isCancelled ⟨0⟩
      | _ => false) = true := by decide +kernel
  cases hpoll : (napping.executeRun {} "run" ⟨0⟩ none).poll bedtime with
  | done r e | aborted message e =>
    rw [hpoll] at hwaits
    cases hwaits
  | waiting p e =>
    rw [hpoll] at hwaits
    obtain ⟨hs, hc⟩ := Bool.and_eq_true_iff.1 hwaits
    have hcompany : Company "run" ⟨0⟩ e (e.cancel ⟨0⟩) := ⟨rfl, fun _ => hc⟩
    have h : Evolves (Company "run" ⟨0⟩) (napping.executeRun {} "run" ⟨0⟩ none) bedtime p
        (e.cancel ⟨0⟩) := (evolves_of_poll_waiting hpoll).other hcompany
    obtain ⟨run, -, -, hrun, hgone, -⟩ := (((cancellation_safe rfl h).2.1 hc).2 hs).1
    exact ⟨p, _, h, hc, hs, run, hrun, hgone⟩

end Workflow

end WorkflowEngine
