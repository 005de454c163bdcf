import WorkflowEngine.Executor.Ready
import WorkflowEngine.Host
import WorkflowEngine.Proofs.Session.Points
import WorkflowEngine.Proofs.Workflow.Liveliness
import WorkflowEngine.Proofs.Workflow.Refusals

/-!
# Reports of runs

A run that is called for, in whatever way, either never starts or tells that it started and reports how it
ended. Main statement: which of the two happens is settled by the workflow and its session alone; a run that
never starts leaves nothing behind but the entries that were stored for its session; and every other one
gives a result with a status that it keeps, whatever happens in it and whatever its store refuses.
-/

namespace WorkflowEngine

open Fiber Relation

/-- A feed that takes an event. -/
def Feed.Takes (f : Feed) : Prop := f.closed = true ∨ f.queue.length < f.capacity

namespace Workflow

/-- The fiber of a run in the background. -/
def task (w : Workflow) (input : ExecutionInput) (run : BackgroundRun) (feed : Option (Ref Feed)) :
    Fiber Engine Unit :=
  (w.executeRun input run.runId run.token feed).bind fun r =>
    Fiber.modify (BackgroundRun.settle run.outcome r)

variable {others : Engine → Engine → Prop}

/-- On its way a run tells that it started: on the bus, and in its feed when nobody else fills that. -/
def Starts (w : Workflow) (runId : String) (feed : Option (Ref Feed)) (others : Engine → Engine → Prop)
    (p : Fiber Engine (Except Fault WorkflowRun)) (e : Engine) (q : Fiber Engine (Except Fault WorkflowRun))
    (e' : Engine) : Prop :=
  ∃ event : WorkflowEvent, event.runId = runId ∧ event.kind = .runStarted w.name ∧
    Makes others p e q e' (fun a b => b = a.readClock.2.publish w.bus event) ∧
    ∀ f, feed = some f → (e.feeds.get f).Takes →
      (∀ a b, others a b → (a.feeds.get f).Takes → (b.feeds.get f).Takes) →
      Makes others p e q e' fun a b => RunContext.offer? f event a = some ((), b)

/-- How a run comes out that is called for on one engine and let in on another. -/
inductive Comes (w : Workflow) (input : ExecutionInput) (runId : String) (token : Ref CancelToken)
    (feed : Option (Ref Feed)) (others : Engine → Engine → Prop) (e d : Engine) :
    Except Fault WorkflowRun → Engine → Prop
  /-- It is refused and leaves nothing behind. -/
  | refused {d' e' : Engine} {fault : Fault} (before : ReflTransGen others e d)
      (hr : w.refusal? d = some fault) (hu : w.Unstarted d d') (after : ReflTransGen others d' e') :
      Comes w input runId token feed others e d (.error fault) e'
  /-- It starts, tells so to those who follow it, and reports how it ended. -/
  | reported {e' : Engine} {run : WorkflowRun} (before : ReflTransGen others e d)
      (hr : w.refusal? d = none) (hid : run.runId = runId) (hs : run.status.isTerminal = true)
      (ht : w.bus.isSome ∨ feed.isSome →
        w.Starts runId feed others (w.executeRun input runId token feed) e (.done (.ok run)) e') :
      Comes w input runId token feed others e d (.ok run) e'

variable {w : Workflow} {input : ExecutionInput} {runId : String} {token : Ref CancelToken}
  {feed : Option (Ref Feed)} {ctx : RunContext} {e e' : Engine}
  {p q : Fiber Engine (Except Fault WorkflowRun)}

/-! ## The announcement of the start -/

private theorem offer_of_takes {f : Ref Feed} (event : WorkflowEvent) (h : (e.feeds.get f).Takes) :
    ∃ e', RunContext.offer? f event e = some ((), e') := by
  unfold RunContext.offer?
  dsimp only
  split
  · exact ⟨_, rfl⟩
  · rename_i hopen
    exact ⟨_, if_pos (h.resolve_left hopen)⟩

/-- A feed that takes an event does so as long as only others act. -/
private theorem takes_of_others {f : Ref Feed}
    (hkeeps : ∀ a b, others a b → (a.feeds.get f).Takes → (b.feeds.get f).Takes)
    (ho : ReflTransGen others e e') (h : (e.feeds.get f).Takes) : (e'.feeds.get f).Takes := by
  induction ho with
  | refl => exact h
  | tail _ ho ih => exact hkeeps _ _ ho ih

theorem feeds_publish (bus : Option (Ref EventBus)) (event : WorkflowEvent) (e : Engine) :
    (e.publish bus event).feeds = e.feeds := by
  cases bus <;> rfl

/-- What tells of an event and comes to its end has published the event and put it into the feed. -/
private theorem makes_emit {α : Type} {kind : EventKind} {k : Unit → Fiber Engine α} {a : α}
    (hf : ctx.bus.isSome ∨ ctx.feed.isSome)
    (h : Evolves others ((ctx.emit kind).bind k) e (.done a) e') :
    ∃ event : WorkflowEvent, event.runId = ctx.runId ∧ event.kind = kind ∧
      Makes others ((ctx.emit kind).bind k) e (.done a) e'
        (fun a b => b = a.readClock.2.publish ctx.bus event) ∧
      ∀ f, ctx.feed = some f → (e.feeds.get f).Takes →
        (∀ a b, others a b → (a.feeds.get f).Takes → (b.feeds.get f).Takes) →
        Makes others ((ctx.emit kind).bind k) e (.done a) e'
          fun a b => RunContext.offer? f event a = some ((), b) := by
  have hnone : (ctx.feed.isNone && ctx.bus.isNone) = false := by
    rcases hf with hf | hf
    · simp [Option.isNone_eq_false_iff.2 hf]
    · simp [Option.isNone_eq_false_iff.2 hf]
  have hemit : (ctx.emit kind).bind k = .act (fun e =>
      let event : WorkflowEvent := ⟨ctx.runId, ctx.sessionId, e.readClock.1, kind⟩
      (event, e.readClock.2.publish ctx.bus event)) fun event => ctx.feed.elim (k ()) fun f =>
        .wait none (fun e => (RunContext.offer? f event e).or
          (if e.isCancelled ctx.token then some ((), e) else none)) k := by
    unfold RunContext.emit
    rw [if_neg (by simp [hnone])]
    refine congrArg (Fiber.act _) (funext fun event => ?_)
    cases ctx.feed <;> rfl
  rw [hemit] at h ⊢
  rcases evolves_of_act h with ⟨hact, -⟩ | ⟨b, ho, hrest⟩
  · cases hact
  · refine ⟨⟨ctx.runId, ctx.sessionId, b.readClock.1, kind⟩, rfl, rfl,
      ⟨_, b, _, _, Evolves.refl.still ho, .act, rfl, hrest⟩, fun f hfeed htakes hkeeps => ?_⟩
    simp only [hfeed, Option.elim_some] at hrest ⊢
    rcases evolves_of_wait hrest with ⟨hwait, -⟩ | ⟨c, u, c', ho', hready, hrest'⟩
    · cases hwait
    · have hbefore : (b.feeds.get f).Takes := takes_of_others hkeeps ho htakes
      have hroom : (c.feeds.get f).Takes := by
        refine takes_of_others hkeeps ho' ?_
        rw [feeds_publish]
        exact hbefore
      obtain ⟨d, hoffer⟩ := offer_of_takes _ hroom
      rw [hoffer] at hready
      obtain ⟨-, rfl⟩ := Prod.mk.inj (Option.some.inj hready)
      exact ⟨_, c, _, d, ((Evolves.refl.still ho).move .act).still ho', .wait (by rw [hoffer]; rfl), hoffer,
        hrest'⟩

/-! ## Runs by themselves -/

/-- A run begins after others have acted. -/
private theorem done_of_starting {sessionId : String} {committed : Ref SessionState}
    {r : Except Fault WorkflowRun}
    (h : Evolves others (w.starting input runId token feed sessionId committed) e (.done r) e') :
    ∃ d ctx run base b, ReflTransGen others e d ∧
      w.beginRun input runId token feed sessionId committed d = ((ctx, run, base), b) ∧
      Evolves others (w.starting input runId token feed sessionId committed) e
        ((w.work input ctx run).bind (w.leave ctx committed base)) b ∧
      Evolves others ((w.work input ctx run).bind (w.leave ctx committed base)) b (.done r) e' := by
  unfold starting at h
  rcases evolves_of_act h with ⟨hact, -⟩ | ⟨d, ho, hrest⟩
  · cases hact
  · exact ⟨d, _, _, _, _, ho, rfl, (Evolves.refl.still ho).move .act, hrest⟩

/-- A run that has begun gives a result with a status that it keeps. -/
private theorem terminal_of_begun {committed : Ref SessionState} {base : SessionState}
    {run : WorkflowRun} {r : Except Fault WorkflowRun} (hrun : run.UnderWay ctx)
    (h : Evolves others ((w.work input ctx run).bind (w.leave ctx committed base)) e (.done r) e') :
    ∃ last, r = .ok last ∧ last.runId = ctx.runId ∧ last.status.isTerminal = true := by
  obtain ⟨⟨last, fault⟩, t, hwork, hleave⟩ := done_of_bind h
  obtain ⟨u, hu⟩ := (obeys_work w input run).evolves hwork
  have hlast : last.UnderWay ctx :=
    underWay_of_account ((Account.after_nil_apply _ _ _).1 hu) hrun
  rcases evolves_leave hleave with hact | ⟨t', hleaving⟩
  · cases hact
  · rcases leaving_cases hleaving with hact | hdone | ⟨_, _, -, hwait⟩
    · cases hact
    · cases hdone
      exact ⟨_, rfl, (hlast.conclude fault).runId, hlast.isTerminal fault⟩
    · cases hwait

/-- A run whose session is prepared tells that it starts and reports how it ended. -/
private theorem reported_of_starting {sessionId : String} {committed : Ref SessionState}
    {r : Except Fault WorkflowRun}
    (h : Evolves others (w.starting input runId token feed sessionId committed) e (.done r) e') :
    ∃ run, r = .ok run ∧ run.runId = runId ∧ run.status.isTerminal = true ∧
      (w.bus.isSome ∨ feed.isSome → w.Starts runId feed others
        (w.starting input runId token feed sessionId committed) e (.done r) e') := by
  obtain ⟨d, ctx, run, base, b, ho, hbegin, hbefore, hrest⟩ := done_of_starting h
  obtain ⟨last, rfl, hid, hs⟩ := terminal_of_begun (underWay_of_beginRun hbegin) hrest
  obtain ⟨stores, readings, now, hframe⟩ :=
    beginRun_frame w d input runId token feed sessionId committed
  rw [hframe] at hbegin
  obtain ⟨hbegun, rfl⟩ := Prod.mk.inj hbegin
  obtain ⟨hctx, -⟩ := Prod.mk.inj hbegun
  have hrunId : ctx.runId = runId := hctx ▸ rfl
  have hbus : ctx.bus = w.bus := hctx ▸ rfl
  have hfeed : ctx.feed = feed := hctx ▸ rfl
  refine ⟨last, rfl, hid.trans hrunId, hs, fun hf => ?_⟩
  rw [← hbus, ← hfeed] at hf
  have hassoc : (w.work input ctx run).bind (w.leave ctx committed base) =
      (ctx.emit (.runStarted w.name)).bind fun _ =>
        (w.runPlan input ctx run).bind (w.leave ctx committed base) := Fiber.bind_assoc _ _ _
  rw [hassoc] at hrest hbefore
  obtain ⟨event, hevent, hkind, hpublished, hoffered⟩ := makes_emit hf hrest
  rw [hbus] at hpublished
  refine ⟨event, hevent.trans hrunId, hkind, hpublished.after hbefore, fun f hf htakes hkeeps => ?_⟩
  have htakes' : (d.feeds.get f).Takes := takes_of_others hkeeps ho htakes
  exact (hoffered f (hfeed.trans hf) htakes' hkeeps).after hbefore

/-- A run comes out in one of two ways, whatever others do meanwhile. -/
theorem comes_of_evolves {r : Except Fault WorkflowRun}
    (h : Evolves others (w.executeRun input runId token feed) e (.done r) e') :
    ∃ d, w.Comes input runId token feed others e d r e' := by
  cases hv : w.validate with
  | error fault =>
    rw [executeRun_refused hv] at h
    obtain ⟨hdone, ho⟩ := evolves_of_done h
    cases hdone
    exact ⟨e, .refused .refl (by rw [refusal?, hv]) (.refl w e) ho⟩
  | ok =>
    rw [executeRun_valid hv] at h
    rcases evolves_of_act h with ⟨hact, -⟩ | ⟨d, ho, hrest⟩
    · cases hact
    · refine ⟨d, ?_⟩
      rcases hp : w.prepareSession d with ⟨prepared, d'⟩
      have hrefusal := refusal?_of_prepareSession hv hp
      rw [hp] at hrest
      cases prepared with
      | error fault =>
        obtain ⟨hdone, ho'⟩ := evolves_of_done hrest
        cases hdone
        exact .refused ho hrefusal (unstarted_prepareSession hp) ho'
      | ok place =>
        obtain ⟨run, rfl, hid, hs, hstarts⟩ := reported_of_starting hrest
        refine .reported ho hrefusal hid hs fun hf => ?_
        obtain ⟨event, hevent, hkind, hpublished, hoffered⟩ := hstarts hf
        have hbefore : Evolves others (w.executeRun input runId token feed) e
            (w.starting input runId token feed place.1 place.2) d' :=
          (Evolves.refl.still ho).move (moves_of_prepareSession hv hp)
        refine ⟨event, hevent, hkind, hpublished.after hbefore, fun f hf htakes hkeeps => ?_⟩
        refine (hoffered f hf ?_ hkeeps).after hbefore
        rw [feeds_prepareSession hp]
        exact takes_of_others hkeeps ho htakes

/-- What refuses a run: its workflow is not valid, or its session is still to be loaded and cannot be
read. -/
theorem error_iff {d : Engine} {r : Except Fault WorkflowRun}
    (h : w.Comes input runId token feed others e d r e') :
    (∃ fault, r = .error fault) ↔ (∃ fault, w.validate = .error fault) ∨
      (w.session d).loaded = false ∧ ∃ fault, (w.storedSession (w.sessionId d) d).1 = .error fault := by
  have hrefusal : (w.refusal? d).isSome ↔ (∃ fault, w.validate = .error fault) ∨
      (w.session d).loaded = false ∧
        ∃ fault, (w.storedSession (w.sessionId d) d).1 = .error fault := by
    unfold refusal?
    cases w.validate with
    | error fault => simp
    | ok =>
      cases (w.session d).loaded with
      | true => simp
      | false => cases (w.storedSession (w.sessionId d) d).1 <;> simp
  rw [← hrefusal]
  cases h with
  | refused before hr hu after => simp [hr]
  | reported before hr hid hs ht => simp [hr]

/-! ## Runs in the background -/

/-- A run leaves the outcomes of runs in the background alone. -/
theorem Passes.outcomes {home : Workflow} {point point' : Point}
    (h : home.Passes point e point' e') : e'.outcomes = e.outcomes := by
  have hprepare {r : Except Fault (String × Ref SessionState)}
      (h : home.prepareSession e = (r, e')) : e'.outcomes = e.outcomes := by
    obtain ⟨_, _, _, _, _, rfl⟩ := (unstarted_prepareSession h).frame
    rfl
  cases h with
  | call => rfl
  | refuse h | enter h => exact hprepare h
  | begin hw h =>
    obtain ⟨_, _, _, hframe⟩ := beginRun_frame _ e _ _ _ _ _ _
    exact (congrArg (fun q => q.2.outcomes) (h.symm.trans hframe)).trans rfl
  | work h | tell h => exact h.outcomes
  | leave hw hrun hterminal =>
    obtain ⟨_, _, hframe⟩ := endRun_frame _ e _ _ _ _ _
    exact (congrArg Engine.outcomes hframe).trans rfl

private theorem outcome_of_evolves {outcome : Ref Outcome}
    (hkeeps : ∀ a b, others a b → b.outcomes.get? outcome = a.outcomes.get? outcome)
    (h : Evolves others (w.executeRun input runId token feed) e q e') :
    e'.outcomes.get? outcome = e.outcomes.get? outcome := by
  suffices e'.outcomes.get? outcome = e.outcomes.get? outcome ∧ ∃ point, w.At point q from this.1
  induction h with
  | refl => exact ⟨rfl, _, .entering ⟨rfl, rfl⟩⟩
  | move _ hm ih =>
    obtain ⟨hout, point, hat⟩ := ih
    obtain ⟨point', hpass, hat'⟩ := hat.moves hm
    exact ⟨by rw [hpass.outcomes, hout], point', hat'⟩
  | other _ ho ih => exact ⟨(hkeeps _ _ ho).trans ih.1, ih.2⟩

private theorem outcome_of_others {outcome : Ref Outcome}
    (hkeeps : ∀ a b, others a b → b.outcomes.get? outcome = a.outcomes.get? outcome)
    (ho : ReflTransGen others e e') : e'.outcomes.get? outcome = e.outcomes.get? outcome := by
  induction ho with
  | refl => rfl
  | tail _ ho ih => exact (hkeeps _ _ ho).trans ih

/-- The outcome of a run in the background is what the run comes out with. -/
theorem comes_of_outcome {run : BackgroundRun} {r : Except Fault WorkflowRun} {q : Fiber Engine Unit}
    (hkeeps : ∀ a b, others a b → b.outcomes.get? run.outcome = a.outcomes.get? run.outcome)
    (he : e.outcomes.get? run.outcome = some none) (h : Evolves others (w.task input run feed) e q e')
    (hr : run.outcome? e' = some r) :
    ∃ d t u, w.Comes input run.runId run.token feed others e d r t ∧ ReflTransGen others t u ∧
      ReflTransGen others (BackgroundRun.settle run.outcome r u) e' := by
  have hopen {t : Engine} (ht : t.outcomes.get? run.outcome = some none) :
      run.outcome? t = none := Pool.get_of_get? ht
  rcases evolves_of_bind h with ⟨p, hp, -⟩ | ⟨result, t, hdone, hsettle⟩
  · rw [hopen ((outcome_of_evolves hkeeps hp).trans he)] at hr
    cases hr
  · have ht := (outcome_of_evolves hkeeps hdone).trans he
    rcases evolves_of_act hsettle with ⟨-, ho⟩ | ⟨u, ho, hrest⟩
    · rw [hopen ((outcome_of_others hkeeps ho).trans ht)] at hr
      cases hr
    · obtain ⟨-, ho'⟩ := evolves_of_done hrest
      have hu := (outcome_of_others hkeeps ho).trans ht
      have hset : (BackgroundRun.settle run.outcome result u).outcomes.get? run.outcome =
          some (some result) := Pool.get?_set_self (List.getElem?_eq_some_iff.1 hu).1 _
      have hresult : run.outcome? e' = some result :=
        Pool.get_of_get? ((outcome_of_others hkeeps ho').trans hset)
      obtain rfl : result = r := Option.some.inj (hresult.symm.trans hr)
      obtain ⟨d, hcomes⟩ := comes_of_evolves hdone
      exact ⟨d, t, u, hcomes, ho, ho'⟩

/-- A run goes on in the background of a host, and its outcome is yet to come. -/
structure Launched (w : Workflow) (input : ExecutionInput) (feed : Option (Ref Feed))
    (run : BackgroundRun) (h h' : Host) : Prop where
  tasks : h'.tasks = h.tasks ++ [{ work := w.task input run feed, outcome := some run.outcome }]
  outcome : h'.engine.outcomes.get? run.outcome = some none

variable {h h' : Host} {run : BackgroundRun} {s : RunStream} {fault : Fault}

theorem launched_startRun (input : ExecutionInput) (runId : String) (feed : Option (Ref Feed)) :
    w.Launched input feed (h.startRun w input runId feed).1 h (h.startRun w input runId feed).2 :=
  ⟨rfl, Pool.get?_add _ _⟩

/-- A call for a streamed run launches it with a feed of its own, and does nothing else. -/
theorem launched_stream (hstream : h.stream w input = (.done s, h')) :
    w.Launched input (some s.feed) s.toBackgroundRun h h' ∧
      (0 < w.eventBuffer → (h'.engine.feeds.get s.feed).Takes) ∧
      ∃ tokens feeds outcomes generated,
        h'.engine = { h.engine with tokens, feeds, outcomes, generated } := by
  unfold Host.stream at hstream
  split at hstream
  · cases hstream
  · obtain ⟨hs, rfl⟩ := Prod.mk.inj hstream
    obtain rfl := Awaited.done.inj hs
    have hl := launched_startRun (w := w)
      (h := { h with engine := (h.engine.addFeed w.eventBuffer).2.freshId.2 }) input
      (h.engine.addFeed w.eventBuffer).2.freshId.1 (some (h.engine.addFeed w.eventBuffer).1)
    refine ⟨⟨hl.tasks, hl.outcome⟩, fun hroom => .inr ?_, _, _, _, _, rfl⟩
    have hfeed : (h.engine.addFeed w.eventBuffer).2.feeds.get (h.engine.addFeed w.eventBuffer).1 =
        { capacity := w.eventBuffer } := Pool.get_of_get? (Pool.get?_add _ _)
    change ((h.engine.addFeed w.eventBuffer).2.feeds.get (h.engine.addFeed w.eventBuffer).1).queue.length <
      ((h.engine.addFeed w.eventBuffer).2.feeds.get (h.engine.addFeed w.eventBuffer).1).capacity
    rw [hfeed]
    exact hroom

theorem spawn_cases {q : Except Fault BackgroundRun} (hspawn : h.spawn w input = (q, h')) :
    (∃ fault, q = .error fault ∧ h'.tasks = h.tasks ∧
        w.announceRun h.engine = (.error fault, h'.engine)) ∨
      ∃ run e, q = .ok run ∧ w.announceRun h.engine = (.ok run.runId, e) ∧
        w.Launched input none run h h' ∧ h'.engine.slots = e.slots := by
  unfold Host.spawn at hspawn
  rcases ha : w.announceRun h.engine with ⟨_ | runId, e⟩
  · rw [ha] at hspawn
    obtain ⟨rfl, rfl⟩ := Prod.mk.inj hspawn
    exact .inl ⟨_, rfl, rfl, rfl⟩
  · rw [ha] at hspawn
    obtain ⟨rfl, rfl⟩ := Prod.mk.inj hspawn
    have hl := launched_startRun (w := w) (h := { h with engine := e }) input runId none
    exact .inr ⟨_, e, rfl, rfl, ⟨hl.tasks, hl.outcome⟩, rfl⟩

/-! ## Refused and reported runs -/

/-- A run that is called for either never starts or reports how it ended, in whatever way it is called for
and whatever others do beside it. A call that is awaited gives a fault exactly when the workflow is not valid
or its session is still to be loaded and cannot be read. The outcome of a run in the background, streamed or
not, comes about in the same way. A run that cannot be announced is not started, and one that could is not
refused later unless its session was left. A run that is refused leaves nothing behind but the entries stored
for its session; any other one tells that it starts and gives a result with a status that it keeps. And
when nothing in it aborts a result is given, as long as time passes and its feed is read. -/
theorem refused_or_reported (w : Workflow) (input : ExecutionInput) :
    (∀ (others : Engine → Engine → Prop) token e r e',
      Evolves others (w.run input token) e (.done r) e' →
      ∃ b d, ReflTransGen others e b ∧
        w.Comes input b.freshId.1 token none others b.freshId.2 d r e' ∧
        ((∃ fault, r = .error fault) ↔ (∃ fault, w.validate = .error fault) ∨
          (w.session d).loaded = false ∧
            ∃ fault, (w.storedSession (w.sessionId d) d).1 = .error fault)) ∧
    (∀ (others : Engine → Engine → Prop) (run : BackgroundRun) feed e q e' r,
      (∀ a b, others a b → b.outcomes.get? run.outcome = a.outcomes.get? run.outcome) →
      e.outcomes.get? run.outcome = some none →
      Evolves others (w.task input run feed) e q e' → run.outcome? e' = some r →
      ∃ d t u, w.Comes input run.runId run.token feed others e d r t ∧ ReflTransGen others t u ∧
        ReflTransGen others (BackgroundRun.settle run.outcome r u) e') ∧
    (∀ (h : Host) s h', h.stream w input = (.done s, h') →
      w.Launched input (some s.feed) s.toBackgroundRun h h' ∧
        (0 < w.eventBuffer → (h'.engine.feeds.get s.feed).Takes) ∧
        ∃ tokens feeds outcomes generated,
          h'.engine = { h.engine with tokens, feeds, outcomes, generated }) ∧
    (∀ (h : Host) fault h', h.spawn w input = (.error fault, h') →
      h'.tasks = h.tasks ∧ w.Unstarted h.engine h'.engine) ∧
    (∀ (h : Host) run h', w.slot.index < h.engine.slots.items.length →
      h.spawn w input = (.ok run, h') → w.Launched input none run h h' ∧
        ∀ d, w.session d = w.session h'.engine → w.refusal? d = none) ∧
    (w.Steady → ∀ (others : Engine → Engine → Prop) runId token feed e p e',
      Evolves others (w.executeRun input runId token feed) e p e' → (audience feed).sound e' →
      ∃ r e'', Evolves (audience feed).helps p e' (.done r) e'') := by
  refine ⟨fun others token e r e' h => ?_, fun others run feed e q e' r hkeeps he h hr =>
    comes_of_outcome hkeeps he h hr, fun h s h' hstream => launched_stream hstream,
    fun h fault h' hspawn => ?_, fun h run h' hslot hspawn => ?_,
    fun hw others runId token feed e p e' he hs => finishes hw he hs⟩
  · rcases evolves_of_act h with ⟨hact, -⟩ | ⟨b, ho, hrest⟩
    · cases hact
    · obtain ⟨d, hcomes⟩ := comes_of_evolves hrest
      exact ⟨b, d, ho, hcomes, error_iff hcomes⟩
  · rcases spawn_cases hspawn with ⟨fault', hq, htasks, ha⟩ | ⟨run, e, hq, -⟩
    · exact ⟨htasks, unstarted_announceRun ha⟩
    · cases hq
  · rcases spawn_cases hspawn with ⟨fault', hq, -⟩ | ⟨run', e, hq, ha, hl, hslots⟩
    · cases hq
    · obtain rfl := Except.ok.inj hq
      refine ⟨hl, fun d hd => refusal?_of_announceRun hslot ha ?_⟩
      rw [hd, session, hslots, session]

private def greeting : Workflow where
  id := "greeting"
  name := "greeting"
  plan := .nodes [.step { name := "greet", executor := .counting "greet" (.text "hello") ⟨0⟩ }]
  store := some ⟨0⟩
  slot := ⟨0⟩

private def hall (rows : List SessionRow) : Engine :=
  { start := ⟨0, 0⟩
    states := ⟨[∅]⟩
    tokens := ⟨[{}]⟩
    slots := ⟨[{ id := "session", state := ⟨0⟩ }]⟩
    stores := ⟨[.table rows]⟩ }

private def torn : SessionRow :=
  { (default : SessionRow) with sessionId := "session", state := "\x7b", runs := "[]" }

/-- Nobody else acts. -/
private def nobody : Engine → Engine → Prop := fun _ _ => False

private theorem of_nobody {e e' : Engine} (h : ReflTransGen nobody e e') : e' = e := by
  induction h with
  | refl => rfl
  | tail _ h => exact h.elim

private theorem poll_greeting_torn :
    (match (greeting.run {} ⟨0⟩).poll (hall [torn]) with
      | .done (.error _) _ => true
      | _ => false) = true := by
  decide +kernel

private theorem poll_greeting_new :
    (match (greeting.run {} ⟨0⟩).poll (hall []) with
      | .done (.ok _) _ => true
      | _ => false) = true := by
  decide +kernel

/-- A greeting is refused in a session whose row is torn, which leaves nothing behind, and it reports its end
in a session that is new. -/
theorem refused_or_reported_greeting :
    (∃ fault e', Evolves nobody (greeting.run {} ⟨0⟩) (hall [torn]) (.done (.error fault)) e' ∧
      greeting.Unstarted (hall [torn]).freshId.2 e') ∧
    ∃ run e', Evolves nobody (greeting.run {} ⟨0⟩) (hall []) (.done (.ok run)) e' ∧
      run.status.isTerminal = true := by
  have hrefused := poll_greeting_torn
  have hreported := poll_greeting_new
  constructor
  · cases hpoll : (greeting.run {} ⟨0⟩).poll (hall [torn]) with
    | waiting p e | aborted message e =>
      rw [hpoll] at hrefused
      cases hrefused
    | done r e' =>
      rw [hpoll] at hrefused
      cases r with
      | ok run => cases hrefused
      | error fault =>
        have h : Evolves nobody (greeting.run {} ⟨0⟩) (hall [torn]) (.done (.error fault)) e' :=
          evolves_of_poll_done hpoll
        obtain ⟨b, d, hb, hcomes, -⟩ := (refused_or_reported greeting {}).1 nobody _ _ _ _ h
        cases hcomes with
        | refused before hr hu after =>
          rw [of_nobody hb] at before
          rw [of_nobody before, ← of_nobody after] at hu
          exact ⟨fault, e', h, hu⟩
  · cases hpoll : (greeting.run {} ⟨0⟩).poll (hall []) with
    | waiting p e | aborted message e =>
      rw [hpoll] at hreported
      cases hreported
    | done r e' =>
      rw [hpoll] at hreported
      cases r with
      | error fault => cases hreported
      | ok run =>
        have h : Evolves nobody (greeting.run {} ⟨0⟩) (hall []) (.done (.ok run)) e' :=
          evolves_of_poll_done hpoll
        obtain ⟨b, d, hb, hcomes, -⟩ := (refused_or_reported greeting {}).1 nobody _ _ _ _ h
        cases hcomes with
        | reported before hr hid hs ht => exact ⟨run, e', h, hs⟩

end Workflow

end WorkflowEngine
