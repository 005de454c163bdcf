import WorkflowEngine.Proofs.Host.Readers
import WorkflowEngine.Proofs.Workflow.Readiness
import WorkflowEngine.Proofs.Workflow.Reckoned

/-!
# The passage of a run

How a run that nobody cancels and nothing disturbs passes from its beginning to its end: it works, ends and
tells of its end. Main statements: a run that begins on a ready engine comes to work; every undisturbed turn
leads a run on to where it comes to the same; and a run that is done has come to what is reckoned of it and
has closed its session.
-/

namespace WorkflowEngine

namespace Engine

/-- What the turn of a run leaves to those who follow it. -/
structure Leads (e e' : Engine) : Prop where
  outcomes : e'.outcomes = e.outcomes
  closed : ∀ feed, (e'.feeds.get feed).closed = (e.feeds.get feed).closed

theorem Leads.trans {e e' e'' : Engine} (h : e.Leads e') (h' : e'.Leads e'') : e.Leads e'' :=
  ⟨h'.outcomes.trans h.outcomes, fun feed => (h'.closed feed).trans (h.closed feed)⟩

end Engine

namespace Workflow

open Fiber Realm

/-- The context of a run that is called for on an engine. -/
def context (w : Workflow) (e : Engine) (feed : Option (Ref Feed)) : RunContext :=
  { sessionId := w.sessionId e
    runId := e.freshId.1
    state := ⟨e.states.items.length⟩
    token := ⟨e.tokens.items.length⟩
    feed
    bus := w.bus
    stepDefaults := w.stepDefaults }

/-- What the work of a run that is called for on an engine comes to, and the scene that it leaves. -/
def forecast (w : Workflow) (input : ExecutionInput) (e : Engine) :
    (WorkflowRun × Option Fault) × Scene :=
  w.reckonPlan input (w.context e none) (w.opening input e default) ⟨w.base e, e.tallies⟩

/-- The run in the end, apart from all times. -/
def outcome (w : Workflow) (input : ExecutionInput) (e : Engine) : WorkflowRun :=
  (w.forecast input e).1.1.conclude (w.forecast input e).1.2

/-- The committed state in the end. -/
def finalState (w : Workflow) (input : ExecutionInput) (e : Engine) : SessionState :=
  w.committedAfter e (w.outcome input e) (w.forecast input e).2.state

variable {w : Workflow} {input : ExecutionInput} {e d d' : Engine} {P : Store → Prop}
  {feed : Option (Ref Feed)}

/-- How a run passes: it works and comes to its forecast, or it has ended and tells of it. -/
inductive Underway (w : Workflow) (input : ExecutionInput) (e : Engine) (P : Store → Prop)
    (feed : Option (Ref Feed)) : Fiber Engine (Except Fault WorkflowRun) → Engine → Prop
  | working {q : Fiber Engine (WorkflowRun × Option Fault)}
      {A : Account Happening (WorkflowRun × Option Fault)} {v : Scene} {d : Engine}
      (hr : w.Ready e P d) (ho : Obeys (w.context e feed).discipline q A)
      (hy : Yields (w.context e feed) realm q v
        (fun r => (r.1.untimed, r.2) = (w.forecast input e).1) (w.forecast input e).2)
      (hs : realm.Shows (w.context e feed) d v)
      (hc : d.isCancelled (w.context e feed).token = false) (hroom : d.Roomy feed) :
      Underway w input e P feed
        (q.bind (w.leave (w.context e feed) (w.session e).state (w.base e))) d
  | leaving {run : WorkflowRun} {p : Fiber Engine (Except Fault WorkflowRun)} {v v' : Scene}
      {d : Engine} (hrun : run.untimed = w.outcome input e)
      (hd : w.Concluded e (w.finalState input e) d) (ho : (w.context e feed).Silent p)
      (hy : Yields (w.context e feed) realm p v (· = .ok run) v')
      (hs : realm.Shows (w.context e feed) d v)
      (hc : d.isCancelled (w.context e feed).token = false) (hroom : d.Roomy feed) :
      Underway w input e P feed p d

/-- The working copy of a run is not the committed state. -/
theorem context_ne (hs : w.Seated e) : (w.context e feed).state ≠ (w.session e).state := fun h =>
  Nat.ne_of_lt hs.state (congrArg Ref.index h).symm

theorem Concluded.acts {s : SessionState} {ctx : RunContext} {t : List Happening}
    (h : w.Concluded e s d) (hctx : ctx.state ≠ (w.session e).state) (ha : ctx.Acts d t d') :
    w.Concluded e s d' := by
  have hsession : w.session d' = w.session d := by rw [Workflow.session, ha.slots, Workflow.session]
  refine ⟨hsession.trans h.session, ?_, ?_⟩
  · have hne : (w.session d).state ≠ ctx.state := by
      rw [h.session]
      exact hctx.symm
    rw [← h.committed, sessionState, hsession, Pool.get, ha.states _ hne]
    rfl
  · rw [← h.stored, storedState, sessionId, hsession, ha.stores, storedState, sessionId]

namespace Underway

theorem idle {p : Fiber Engine (Except Fault WorkflowRun)} (h : Underway w input e P feed p d)
    (hi : d.Idles d') : Underway w input e P feed p d' := by
  obtain ⟨now, feeds, rfl, hkept⟩ := hi
  cases h with
  | working hr ho hy hs hc hroom =>
    exact .working (hr.congr rfl rfl rfl) ho hy ⟨hs.copy, hs.agree⟩ hc (hroom.keep hkept)
  | leaving hrun hd ho hy hs hc hroom =>
    exact .leaving hrun ⟨hd.session, hd.committed, hd.stored⟩ ho hy ⟨hs.copy, hs.agree⟩ hc
      (hroom.keep hkept)

theorem roomy {p : Fiber Engine (Except Fault WorkflowRun)} (h : Underway w input e P feed p d) :
    d.Roomy feed := by
  cases h with
  | working hr ho hy hs hc hroom | leaving hrun hd ho hy hs hc hroom => exact hroom

/-- A run that is done has come to its outcome and closed its session. -/
theorem of_done {r : Except Fault WorkflowRun} (h : Underway w input e P feed (.done r) d) :
    ∃ run, r = .ok run ∧ run.untimed = w.outcome input e ∧
      w.Concluded e (w.finalState input e) d := by
  generalize hp : (.done r : Fiber Engine (Except Fault WorkflowRun)) = p at h
  cases h with
  | @working q A v d hr ho hy hs hc hroom =>
    cases q with
    | done => cases hp
    | act | wait | race | both | abort => cases hp
  | leaving hrun hd ho hy hs hc hroom =>
    subst hp
    exact ⟨_, hy.1, hrun, hd⟩

/-- A run that tells of its end does so in every turn. -/
private theorem leaving_poll {run : WorkflowRun} {p : Fiber Engine (Except Fault WorkflowRun)}
    {v v' : Scene} (hseat : w.Seated e) (hrun : run.untimed = w.outcome input e)
    (hd : w.Concluded e (w.finalState input e) d) (ho : (w.context e feed).Silent p)
    (hy : Yields (w.context e feed) realm p v (· = .ok run) v')
    (hs : realm.Shows (w.context e feed) d v)
    (hc : d.isCancelled (w.context e feed).token = false) (hroom : d.Roomy feed)
    (hcalm : p.disturbed (fun e' => e'.isCancelled (w.context e feed).token) d = false) :
    ∃ p' d', Fiber.Leaves (p.poll d) p' d' ∧ Underway w input e P feed p' d' ∧ d.Leads d' := by
  have hfares := hy.poll hs hc hcalm
  generalize hq : p.poll d = q at hfares
  cases hfares with
  | done hf ha hs' =>
    obtain ⟨t, hacts, -⟩ := Obeys.of_poll_done ho hq
    exact ⟨_, _, .done, .leaving hrun (hd.acts (context_ne hseat) hacts) (.done _) ⟨ha, .refl _ _⟩
      hs' (hf.cancelled.trans hc) (hroom.keep hf.rooms), hacts.outcomes, hf.closed⟩
  | waiting hf hs' hp =>
    obtain ⟨t, hacts, ho'⟩ := Obeys.of_poll_waiting ho hq
    obtain rfl : t = [] := by simpa [Account.after, Account.silent] using ho'.now
    exact ⟨_, _, .waiting, .leaving hrun (hd.acts (context_ne hseat) hacts) (by simpa using ho') hp
      hs' (hf.cancelled.trans hc) (hroom.keep hf.rooms), hacts.outcomes, hf.closed⟩

/-- The end of a run leads on to the telling of it. -/
private theorem leave_poll {run : WorkflowRun} {fault : Option Fault} (hseat : w.Seated e)
    (hsv : w.Accepts input e P) (hrun : (run.untimed, fault) = (w.forecast input e).1)
    (hr : w.Ready e P d) (hs : realm.Shows (w.context e feed) d (w.forecast input e).2)
    (hroom : d.Roomy feed) (hcalm : (w.leave (w.context e feed) (w.session e).state (w.base e) (run, fault)).disturbed
      (fun e' => e'.isCancelled (w.context e feed).token) d = false) :
    ∃ p' d', Fiber.Leaves ((w.leave (w.context e feed) (w.session e).state (w.base e) (run, fault)).poll d)
      p' d' ∧ Underway w input e P feed p' d' ∧ d.Leads d' := by
  obtain ⟨hrun, hfault⟩ := Prod.mk.inj (hrun.trans rfl : (run.untimed, fault) =
    ((w.forecast input e).1.1, (w.forecast input e).1.2))
  have houtcome : (run.conclude fault).untimed = w.outcome input e := by
    rw [WorkflowRun.untimed_conclude, hrun, hfault, outcome]
  have hsession : (run.conclude fault).sessionId = w.sessionId e := by
    have huntimed : (run.conclude fault).sessionId = run.untimed.sessionId :=
      WorkflowRun.sessionId_conclude run fault
    rw [huntimed, hrun]
    exact sessionId_reckonPlan _ _ _
  have hstatus : (run.conclude fault).untimed.status = (w.outcome input e).status :=
    congrArg WorkflowRun.status houtcome
  have hcopy : d.states.get (w.context e feed).state = (w.forecast input e).2.state :=
    SessionState.ext_get? fun key => hs.agree.keys key (.inl trivial)
  let f := w.endRun (run.conclude fault) fault (w.context e feed).state (w.session e).state
    (w.base e) d
  have hend : w.Concluded e (w.finalState input e) f := by
    have hend := endRun_concluded hr hsv hsession fault (w.context e feed).state
    rw [hcopy, committedAfter] at hend
    rw [finalState, committedAfter, ← hstatus]
    exact hend
  obtain ⟨hcf, hcalm⟩ := Bool.or_eq_false_iff.1 hcalm
  obtain ⟨stores, readings, hframe⟩ := endRun_frame w d (run.conclude fault) fault
    (w.context e feed).state (w.session e).state (w.base e)
  have hfeeds : f.feeds = d.feeds := by rw [show f = _ from hframe]
  have hleads : d.Leads f := ⟨by rw [show f = _ from hframe], fun _ => by rw [hfeeds]⟩
  have hshows : realm.Shows (w.context e feed) f (f.scene (w.context e feed)) := by
    refine ⟨?_, .refl _ _⟩
    rw [show f = _ from hframe]
    dsimp only
    split
    · rw [Pool.get?_set_ne _ (context_ne hseat)]
      exact hs.copy
    · exact hs.copy
  have htold : Yields (w.context e feed) realm (Workflow.leaving (w.context e feed) (run.conclude fault))
      (f.scene (w.context e feed)) (· = .ok (run.conclude fault)) (f.scene (w.context e feed)) :=
    (Yields.emitTerminal _).bind fun _ _ => Yields.pure rfl
  obtain ⟨p', d', hleaves, hunder, htells⟩ := leaving_poll hseat houtcome hend (silent_leaving _ _)
    htold hshows hcf (hroom.keep fun _ => by rw [hfeeds]) hcalm
  exact ⟨p', d', hleaves, hunder, hleads.trans htells⟩

/-- Every undisturbed turn leads a run on. -/
theorem poll {p : Fiber Engine (Except Fault WorkflowRun)} (h : Underway w input e P feed p d)
    (hseat : w.Seated e) (hsv : w.Accepts input e P)
    (hcalm : p.disturbed (fun e' => e'.isCancelled (w.context e feed).token) d = false) :
    ∃ p' d', Fiber.Leaves (p.poll d) p' d' ∧ Underway w input e P feed p' d' ∧ d.Leads d' := by
  cases h with
  | leaving hrun hd ho hy hs hc hroom => exact leaving_poll hseat hrun hd ho hy hs hc hroom hcalm
  | @working q A v d hr ho hy hs hc hroom =>
    rw [disturbed_bind, Bool.or_eq_false_iff] at hcalm
    obtain ⟨hq, hcalm⟩ := hcalm
    have hfares := hy.poll hs hc hq
    rw [poll_bind]
    generalize hpoll : q.poll d = r at hfares hcalm
    cases hfares with
    | waiting hf hs' hy' =>
      obtain ⟨t, hacts, ho'⟩ := Obeys.of_poll_waiting ho hpoll
      exact ⟨_, _, .waiting,
        .working (hr.acts (context_ne hseat) hacts) ho' hy' hs' (hf.cancelled.trans hc)
          (hroom.keep hf.rooms), hacts.outcomes, hf.closed⟩
    | @done a f hf ha hs' =>
      obtain ⟨t, hacts, -⟩ := Obeys.of_poll_done ho hpoll
      obtain ⟨run, fault⟩ := a
      obtain ⟨p', d', hleaves, hunder, hends⟩ := leave_poll hseat hsv ha
        (hr.acts (context_ne hseat) hacts) hs' (hroom.keep hf.rooms) hcalm
      have hworked : d.Leads f := ⟨hacts.outcomes, hf.closed⟩
      exact ⟨p', d', hleaves, hunder, hworked.trans hends⟩

/-- A run whose work is done can go on, for it is to leave. -/
private theorem working_of_not_canGoOn {q : Fiber Engine (WorkflowRun × Option Fault)}
    {ctx : RunContext} {committed : Ref SessionState} {base : SessionState}
    (hgo : (q.bind (w.leave ctx committed base)).canGoOn d = false) : q.isDone = false := by
  cases q with
  | done r => cases hgo
  | act | wait | race | both | abort => rfl

/-- A run that cannot go on waits for a time, or for a reader to take what is in its feed. -/
theorem waits {p : Fiber Engine (Except Fault WorkflowRun)} (h : Underway w input e P feed p d)
    (hd : p.isDone = false) (hgo : p.canGoOn d = false) :
    p.due.isSome ∨ ∃ f, feed = some f ∧ (d.feeds.get f).closed = false ∧
      (d.feeds.get f).queue ≠ [] := by
  have hblocked (hroom : d.Roomy feed) (hb : (w.context e feed).Blocked d) :
      ∃ f, feed = some f ∧ (d.feeds.get f).closed = false ∧ (d.feeds.get f).queue ≠ [] := by
    obtain ⟨f, hf, hopen, hfull⟩ := hb
    exact ⟨f, hf, hopen, List.length_pos_iff.1 (Nat.lt_of_lt_of_le (hroom f hf) hfull)⟩
  cases h with
  | leaving hrun hd' ho hy hs hc hroom => exact (hy.waits hd hgo).imp_right (hblocked hroom)
  | @working q A v d hr ho hy hs hc hroom =>
    have hq := working_of_not_canGoOn hgo
    rw [canGoOn_bind hq] at hgo
    rw [due_bind hq]
    exact (hy.waits hq hgo).imp_right (hblocked hroom)

/-- The time that a run waits for has not come while it cannot go on. -/
theorem now_lt {p : Fiber Engine (Except Fault WorkflowRun)} (h : Underway w input e P feed p d)
    (hgo : p.canGoOn d = false) {due : Nat} (hdue : p.due = some due) : d.now < due := by
  cases h with
  | leaving hrun hd' ho hy hs hc hroom => exact hy.now_lt hgo hdue
  | @working q A v d hr ho hy hs hc hroom =>
    have hq := working_of_not_canGoOn hgo
    rw [canGoOn_bind hq] at hgo
    rw [due_bind hq] at hdue
    exact hy.now_lt hgo hdue

end Underway

/-- The first turn of a run on a prepared engine. -/
private theorem turn_executeRun (input : ExecutionInput) (runId : String) (token : Ref CancelToken)
    (feed : Option (Ref Feed)) (bad : Engine → Bool) {sessionId : String}
    {committed : Ref SessionState} (hv : w.validate = .ok ())
    (hp : w.prepareSession d = (.ok (sessionId, committed), d')) :
    (w.executeRun input runId token feed).poll d =
        (w.starting input runId token feed sessionId committed).poll d' ∧
      (w.executeRun input runId token feed).disturbed bad d =
        (bad d' || (w.starting input runId token feed sessionId committed).disturbed bad d') := by
  rw [executeRun_valid hv, Fiber.poll, disturbed, hp]
  exact ⟨rfl, rfl⟩

/-- The work of a run comes to its forecast. -/
private theorem yields_forecast (hmode : w.Modeless) (input : ExecutionInput) (e : Engine)
    (feed : Option (Ref Feed)) (now : Instant) :
    Yields (w.context e feed) realm (w.work input (w.context e feed) (w.opening input e now))
      ⟨w.base e, e.tallies⟩ (fun r => (r.1.untimed, r.2) = (w.forecast input e).1)
      (w.forecast input e).2 := by
  have hforecast : w.reckonPlan input (w.context e feed) (w.opening input e now).untimed
      ⟨w.base e, e.tallies⟩ = w.forecast input e := by
    have hfeed : w.reckonPlan input { w.context e none with feed } (w.opening input e default) =
        w.reckonPlan input (w.context e none) (w.opening input e default) :=
      reckonPlan_feed hmode input _ feed
    exact congrFun hfeed _
  rw [← hforecast]
  exact yields_work hmode input _ _

/-- A run that begins on an engine whose session is prepared comes to work. -/
theorem underway_executeRun (hseat : w.Seated e) (hsv : w.Accepts input e P) (hmode : w.Modeless)
    (hv : w.validate = .ok ())
    (hp : w.prepareSession d = (.ok ((w.session e).id, (w.session e).state), d'))
    (hr : w.Ready e P d') (hm : e.Moment d') (hsize : d'.states.items.length = e.states.items.length)
    (htallies : d'.tallies = e.tallies) (hroom : d'.Roomy feed)
    (hcalm : (w.executeRun input e.freshId.1 (w.context e feed).token feed).disturbed
      (fun e' => e'.isCancelled (w.context e feed).token) d = false) :
    ∃ p' d'', Fiber.Leaves ((w.executeRun input e.freshId.1 (w.context e feed).token feed).poll d) p' d'' ∧
      Underway w input e P feed p' d'' ∧ d'.Leads d'' := by
  obtain ⟨hpoll, hdisturbed⟩ := turn_executeRun input e.freshId.1 (w.context e feed).token feed
    (fun e' => e'.isCancelled (w.context e feed).token) hv hp
  rw [hpoll]
  rw [hdisturbed] at hcalm
  obtain ⟨now, b, hbegin, hready, hcopy, hkept, hfeeds, houtcomes⟩ :=
    beginRun_ready hr hm hsv (w.context e feed).token feed
  rw [hsize] at hbegin hcopy
  have hbegun : w.beginRun input e.freshId.1 (w.context e feed).token feed (w.session e).id
      (w.session e).state d' = ((w.context e feed, w.opening input e now, w.base e), b) := hbegin
  unfold starting at hcalm ⊢
  simp only [Fiber.update, Fiber.bind, Fiber.poll, disturbed, hbegun, Bool.or_eq_false_iff] at hcalm ⊢
  obtain ⟨-, hcb, hcalm⟩ := hcalm
  have hcopy : b.states.get? (w.context e feed).state = some (w.base e) := hcopy
  have hscene : b.scene (w.context e feed) = ⟨w.base e, e.tallies⟩ := by
    rw [Engine.scene, hkept, htallies, Pool.get_of_get? hcopy]
  have hshows : realm.Shows (w.context e feed) b ⟨w.base e, e.tallies⟩ :=
    ⟨Option.isSome_iff_exists.2 ⟨_, hcopy⟩, hscene ▸ .refl _ _⟩
  have hworks : Underway w input e P feed _ b :=
    .working hready (obeys_work w input _) (yields_forecast hmode input e feed now) hshows hcb
      (hroom.keep fun _ => by rw [hfeeds])
  obtain ⟨p', d'', hleaves, hunder, hleads⟩ := hworks.poll hseat hsv hcalm
  have hbegins : d'.Leads b := ⟨houtcomes, fun _ => by rw [hfeeds]⟩
  exact ⟨p', d'', hleaves, hunder, hbegins.trans hleads⟩

end Workflow

end WorkflowEngine
