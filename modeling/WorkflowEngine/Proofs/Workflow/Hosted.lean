import WorkflowEngine.Proofs.Host.Rounds
import WorkflowEngine.Proofs.Workflow.Passage

/-!
# Runs on hosts

A run that is awaited on a host, by itself or through a caller who attends it. Main statements: as long as
nothing is disturbed, either comes out with the outcome of the run, and its session is closed then.
-/

namespace WorkflowEngine.Workflow

open Fiber Host

/-- The states of an engine in which the run of a context is cancelled. -/
abbrev gone (w : Workflow) (e : Engine) (feed : Option (Ref Feed)) : Engine → Bool :=
  fun d => d.isCancelled (w.context e feed).token

/-- What a run that is called for on an engine comes to, and what it leaves. -/
def Results (w : Workflow) (input : ExecutionInput) (e : Engine) (r : Except Fault WorkflowRun)
    (f : Engine) : Prop :=
  ∃ run, r = .ok run ∧ run.untimed = w.outcome input e ∧ w.Concluded e (w.finalState input e) f

variable {w : Workflow} {input : ExecutionInput} {e d d' : Engine} {P : Store → Prop}
  {feed : Option (Ref Feed)} {p p' m m' : Fiber Engine (Except Fault WorkflowRun)} {h h' : Host}

private theorem isDone_of_not_canGoOn (h : p.canGoOn d = false) : p.isDone = false := by
  cases p with
  | done r => cases h
  | act | wait | race | both | abort => rfl

/-- A run that waits for a time goes on at that time. -/
private theorem canGoOn_later (hu : Underway w input e P feed p d) {now due : Nat}
    (hdue : p.due = some due) (hnow : due ≤ now) : p.canGoOn { d with now } = true := by
  have hu' := hu.idle (Engine.Idles.time d now)
  cases hgo : p.canGoOn { d with now } with
  | true => rfl
  | false => exact absurd (hu'.now_lt hgo hdue) (Nat.not_lt.2 hnow)

/-- An engine on which a run that was called for on another one has not begun yet. -/
structure Called (w : Workflow) (e : Engine) (P : Store → Prop) (feed : Option (Ref Feed)) (d : Engine) :
    Prop where
  roomy : d.Roomy feed
  prepared : ∃ d', w.prepareSession d = (.ok ((w.session e).id, (w.session e).state), d') ∧
    w.Ready e P d' ∧ e.Moment d' ∧ d'.states.items.length = e.states.items.length ∧
    d'.tallies = e.tallies ∧ d'.feeds = d.feeds ∧ d'.outcomes = d.outcomes

namespace Called

/-- A run that is called for can begin at once. -/
theorem of_seated (hseat : w.Seated e) (hsv : w.Accepts input e P)
    (hst : ∀ store, w.store = some store → P (e.stores.get store)) {tokens : Pool CancelToken}
    {generated : Nat} {feeds : Pool Feed} {outcomes : Pool Outcome}
    (hroom : { e with tokens, generated, feeds, outcomes }.Roomy feed) :
    w.Called e P feed { e with tokens, generated, feeds, outcomes } := by
  obtain ⟨d, hp, hr, hd⟩ := prepareSession_ready hseat hsv hst
  have hprepared := prepareSession_congr tokens generated feeds outcomes (w := w) (e := e)
  rw [hp] at hprepared
  exact ⟨hroom, _, hprepared, hr.congr rfl rfl rfl, ⟨hd.start, hd.now, hd.moment.readings⟩, hd.size,
    hd.tallies, rfl, rfl⟩

/-- A run that is announced can begin. -/
theorem of_ready (hr : w.Ready e P d) (hm : e.Moment d)
    (hsize : d.states.items.length = e.states.items.length) (htallies : d.tallies = e.tallies)
    (hroom : d.Roomy feed) : w.Called e P feed d := by
  have hloaded : (w.session d).loaded = true := by rw [hr.session]
  have hprepared := prepareSession_loaded hloaded
  rw [hr.session] at hprepared
  exact ⟨hroom, d, hprepared, hr, hm, hsize, htallies, rfl, rfl⟩

/-- A caller who reads does not keep a run from its beginning. -/
theorem reads (h : w.Called e P feed d) (hreads : d.Reads d') : w.Called e P feed d' := by
  obtain ⟨hroom, d'', hp, hr, hm, hsize, htallies, hfeeds, houtcomes⟩ := h
  have hroom' := hreads.idles.roomy hroom
  obtain ⟨feeds, rfl, -⟩ := hreads
  have hprepared := prepareSession_congr d.tokens d.generated feeds d.outcomes (w := w) (e := d)
  rw [hp] at hprepared
  exact ⟨hroom', _, hprepared, hr.congr rfl rfl rfl, ⟨hm.start, hm.now, hm.readings⟩, hsize, htallies,
    rfl, rfl⟩

/-- The first turn of a run. -/
theorem begins (h : w.Called e P feed d) (hseat : w.Seated e) (hsv : w.Accepts input e P)
    (hmode : w.Modeless) (hv : w.validate = .ok ())
    (hcalm : (w.executeRun input e.freshId.1 (w.context e feed).token feed).disturbed (w.gone e feed) d =
      false) :
    ∃ p' d', Fiber.Leaves ((w.executeRun input e.freshId.1 (w.context e feed).token feed).poll d) p' d' ∧
      Underway w input e P feed p' d' ∧ d.Leads d' := by
  obtain ⟨hroom, d₁, hp, hr, hm, hsize, htallies, hfeeds, houtcomes⟩ := h
  obtain ⟨p', d', hleaves, hu, hleads⟩ := underway_executeRun hseat hsv hmode hv hp hr hm hsize htallies
    (hroom.keep fun _ => by rw [hfeeds]) hcalm
  have hprepares : d.Leads d₁ := ⟨houtcomes, fun _ => by rw [hfeeds]⟩
  exact ⟨p', d', hleaves, hu, hprepares.trans hleads⟩

end Called

/-! ## A run by itself -/

/-- A run by itself finishes when it does so after its first turn. -/
private theorem finishes_turned (hleaves : Fiber.Leaves (p.poll d) p' d')
    (hu : Underway w input e P none p' d') (hcalm : Calm (w.gone e none) p ⟨d, []⟩)
    (hnext : p.isDone = false → ∀ now, p'.canGoOn { d' with now } = true →
      Underway w input e P none p' { d' with now } →
      Calm (w.gone e none) p' ⟨{ d' with now }, []⟩ →
      Ends (w.Results input e) p' ⟨{ d' with now }, []⟩) :
    Ends (w.Results input e) p ⟨d, []⟩ := by
  cases hpoll : p.poll d with
  | aborted message f =>
    rw [hpoll] at hleaves
    cases hleaves
  | done r f =>
    rw [hpoll] at hleaves
    cases hleaves
    have hround : Host.round p ⟨d, []⟩ = .ended (.done r) ⟨d', []⟩ := by rw [Host.round, hpoll]
    exact .of_ended hround hu.of_done
  | waiting q f =>
    rw [hpoll] at hleaves
    cases hleaves
    have hround : Host.round p ⟨d, []⟩ = afterTurns p' [] d' := by
      rw [Host.round, hpoll]
      rfl
    have hdue (hgo : p'.canGoOn d' = false) (_ : [].any (HostTask.work · |>.canGoOn d') = false) :
        (nextDue p' []).isSome := by
      rcases hu.waits (isDone_of_not_canGoOn hgo) hgo with hdue | ⟨f, hf, -⟩
      · exact hdue
      · cases hf
    obtain ⟨now, hon, hwhy⟩ := afterTurns_on hdue
    have hgo : p'.canGoOn { d' with now } = true := by
      rcases hwhy with ⟨hgo, rfl⟩ | ⟨due, hdue, hnow⟩
      · simpa using hgo
      · exact canGoOn_later hu hdue hnow
    rw [hon] at hround
    exact .of_onward hround (hnext (isDone_of_waiting hpoll) now hgo (hu.idle (.time d' now))
      (hcalm.next hround))

private theorem finishes_going (hseat : w.Seated e) (hsv : w.Accepts input e P)
    (hu : Underway w input e P none p d) (hgo : p.canGoOn d = true)
    (hcalm : Calm (w.gone e none) p ⟨d, []⟩) : Ends (w.Results input e) p ⟨d, []⟩ := by
  induction p using wellFounded_turn.induction generalizing d with
  | h p ih =>
    obtain ⟨hturn, -⟩ := Bool.or_eq_false_iff.1 hcalm.round
    obtain ⟨p', d', hleaves, hu', -⟩ := hu.poll hseat hsv hturn
    refine finishes_turned hleaves hu' hcalm fun hdone now hgo' hu'' hcalm' => ?_
    exact ih p' ⟨d, d', by simp [hdone, hgo], hleaves⟩ hu'' hgo' hcalm'

/-- A run that is awaited by itself and never disturbed finishes. -/
theorem finishes_run (hseat : w.Seated e) (hsv : w.Accepts input e P)
    (hst : ∀ store, w.store = some store → P (e.stores.get store)) (hmode : w.Modeless)
    (hv : w.validate = .ok ())
    (hcalm : Calm (w.gone e none) (w.run input e.addToken.1) ⟨e.addToken.2, []⟩) :
    Ends (w.Results input e) (w.run input e.addToken.1) ⟨e.addToken.2, []⟩ := by
  obtain ⟨hturn, -⟩ := Bool.or_eq_false_iff.1 hcalm.round
  obtain ⟨-, hturn⟩ := Bool.or_eq_false_iff.1 hturn
  have hcalled : w.Called e P none e.addToken.2.freshId.2 :=
    .of_seated hseat hsv hst fun _ hf => nomatch hf
  obtain ⟨p', d', hleaves, hu, -⟩ := hcalled.begins hseat hsv hmode hv hturn
  exact finishes_turned hleaves hu hcalm fun _ now hgo hu' hcalm' =>
    finishes_going hseat hsv hu' hgo hcalm'

/-! ## A run beside its caller -/

/-- What a run comes to is so whoever reads and whatever time passes. -/
private theorem steady_results : BackgroundRun.Steady (w.Results input e) := by
  rintro q d d' ⟨now, feeds, rfl, -⟩ ⟨run, rfl, hrun, hd⟩
  exact ⟨run, rfl, hrun, ⟨hd.session, hd.committed, hd.stored⟩⟩

/-- A run is under way as a task, and a caller attends it. -/
structure Beside (w : Workflow) (input : ExecutionInput) (e : Engine) (P : Store → Prop)
    (feed : Option (Ref Feed)) (r : BackgroundRun) (m p : Fiber Engine (Except Fault WorkflowRun))
    (d : Engine) : Prop where
  under : Underway w input e P feed p d
  attends : r.Attends feed m d
  pending : d.outcomes.get r.outcome = none
  placed : r.outcome.index < d.outcomes.items.length

variable {r : BackgroundRun} {m₁ : Fiber Engine (Except Fault WorkflowRun)} {d₁ d₂ : Engine}

/-- After the caller and then the run have taken a turn, they are side by side. -/
private theorem Beside.of_turns (hu : Underway w input e P feed p' d₂) (hreads : d.Reads d₁)
    (hleads : d₁.Leads d₂) (hm : r.Attends feed m₁ d₁) (hpending : d.outcomes.get r.outcome = none)
    (hplaced : r.outcome.index < d.outcomes.items.length) : Beside w input e P feed r m₁ p' d₂ := by
  have houtcomes : d₂.outcomes = d.outcomes := hleads.outcomes.trans hreads.outcomes
  refine ⟨hu, hm.keep fun f hc => (hleads.closed f).trans hc, ?_, ?_⟩
  · rw [houtcomes]
    exact hpending
  · rw [houtcomes]
    exact hplaced

theorem Beside.idle (h : Beside w input e P feed r m p d) (now : Nat) :
    Beside w input e P feed r m p { d with now } :=
  ⟨h.under.idle (.time d now), h.attends.keep fun _ hc => hc, h.pending, h.placed⟩

/-- A run and its caller wait for a time if neither can go on, and then one of them can. -/
private theorem Beside.afterTurns (h : Beside w input e P feed r m p d) :
    ∃ now, Host.afterTurns m [r.task p] d = .onward m ⟨{ d with now }, [r.task p]⟩ ∧
      (m.canGoOn { d with now } || p.canGoOn { d with now }) = true := by
  have hnextDue (hp : p.isDone = false) : nextDue m [r.task p] = earlier m.due p.due := by
    rw [← BackgroundRun.task_due (r := r) hp]
    rfl
  have hdue (hm : m.canGoOn d = false) (ht : [r.task p].any (·.work.canGoOn d) = false) :
      (nextDue m [r.task p]).isSome := by
    have hgo : p.canGoOn d = false := by simpa [BackgroundRun.task_canGoOn] using ht
    have hp := isDone_of_not_canGoOn hgo
    rw [hnextDue hp, isSome_earlier, Bool.or_eq_true]
    rcases h.under.waits hp hgo with hdue | ⟨f, hf, hopen, hqueue⟩
    · exact .inr hdue
    · refine .inl ((h.attends.waits hm).resolve_right ?_)
      rintro ⟨-, hread⟩
      rcases hread f hf with hclosed | hempty
      · simp [hopen] at hclosed
      · exact hqueue hempty
  obtain ⟨now, hon, hwhy⟩ := afterTurns_on hdue
  refine ⟨now, hon, ?_⟩
  rcases hwhy with ⟨hgo, rfl⟩ | ⟨due, hdue, hnow⟩
  · simpa [BackgroundRun.task_canGoOn] using hgo
  · by_contra hgo
    obtain ⟨hm, hgo⟩ := Bool.or_eq_false_iff.1 (Bool.not_eq_true _ ▸ hgo)
    rw [hnextDue (isDone_of_not_canGoOn hgo)] at hdue
    exact Nat.not_lt.2 hnow (lt_of_earlier (fun _ => (h.idle now).attends.now_lt hm)
      (fun _ => (h.idle now).under.now_lt hgo) hdue)

/-- A caller comes out when this is so after the first turns of the caller and of the run. -/
private theorem ends_turned (hpoll : m.poll d = .waiting m₁ d₁) (hleaves : Fiber.Leaves (p.poll d₁) p' d₂)
    (hb : Beside w input e P feed r m₁ p' d₂) (hcalm : Calm (w.gone e feed) m ⟨d, [r.task p]⟩)
    (hnext : p.isDone = false → ∀ now, (m₁.canGoOn { d₂ with now } || p'.canGoOn { d₂ with now }) = true →
      Beside w input e P feed r m₁ p' { d₂ with now } →
      Calm (w.gone e feed) m₁ ⟨{ d₂ with now }, [r.task p']⟩ →
      Ends (w.Results input e) m₁ ⟨{ d₂ with now }, [r.task p']⟩) :
    Ends (w.Results input e) m ⟨d, [r.task p]⟩ := by
  have hround : Host.round m ⟨d, [r.task p]⟩ = afterTurns m₁ (Host.turn [r.task p] d₁).1
      (Host.turn [r.task p] d₁).2 := by
    rw [Host.round, hpoll]
  cases hp : p.poll d₁ with
  | aborted message f =>
    rw [hp] at hleaves
    cases hleaves
  | done q f =>
    rw [hp] at hleaves
    cases hleaves
    rw [BackgroundRun.turn_task_done hp] at hround
    obtain ⟨run, rfl, hrun, hd⟩ := hb.under.of_done
    have hsettled : r.Settled feed m₁ (.ok run) (BackgroundRun.settle r.outcome (.ok run) d₂) :=
      ⟨Pool.get_set_self hb.placed _, hb.under.roomy, hb.attends.keep fun _ hc => hc⟩
    exact hsettled.ends steady_results ⟨run, rfl, hrun, ⟨hd.session, hd.committed, hd.stored⟩⟩ hround
  | waiting q f =>
    rw [hp] at hleaves
    cases hleaves
    rw [BackgroundRun.turn_task_waiting hp] at hround
    obtain ⟨now, hon, hgo⟩ := hb.afterTurns
    rw [hon] at hround
    exact .of_onward hround (hnext (isDone_of_waiting hp) now hgo (hb.idle now) (hcalm.next hround))

/-- A caller comes out with what the run comes to while one of them can go on. -/
private theorem Beside.ends (hseat : w.Seated e) (hsv : w.Accepts input e P)
    (h : Beside w input e P feed r m p d) (hgo : (m.canGoOn d || p.canGoOn d) = true)
    (hcalm : Calm (w.gone e feed) m ⟨d, [r.task p]⟩) :
    Ends (w.Results input e) m ⟨d, [r.task p]⟩ := by
  -- Each round leads the run further, or else the caller.
  induction p using wellFounded_turn.induction generalizing m d with
  | h p ihp =>
    induction m using wellFounded_turn.induction generalizing d with
    | h m ihm =>
      obtain ⟨m₁, d₁, hpoll, hreads, hm₁⟩ := h.attends.poll_pending h.pending h.under.roomy
      obtain ⟨p', d₂, hleaves, hu, hleads⟩ :=
        (h.under.idle hreads.idles).poll hseat hsv (BackgroundRun.calm_task hcalm hpoll)
      have hb : Beside w input e P feed r m₁ p' d₂ := .of_turns hu hreads hleads hm₁ h.pending h.placed
      refine ends_turned hpoll hleaves hb hcalm fun hdone now hgo' hb' hcalm' => ?_
      rcases turn_of_leaves hleaves with hturn | ⟨rfl, rfl, hstuck⟩
      · exact ihp p' hturn hb' hgo' hcalm'
      · -- The run was left as it is, so it was the caller who could go on.
        have hm : m.canGoOn d = true := by
          by_contra hm
          rw [poll_of_not_canGoOn (Bool.not_eq_true _ ▸ hm)] at hpoll
          cases hpoll
          exact absurd hgo (by simpa [hdone, hm] using hstuck)
        have hturn : Fiber.Turn m₁ m := ⟨d, d₂, by simp [hm, isDone_of_waiting hpoll], hpoll ▸ .waiting⟩
        exact ihm m₁ hturn hb' hgo' hcalm'

/-- A caller who attends a run that has not begun yet comes out with what it comes to. -/
theorem ends_attending (hseat : w.Seated e) (hsv : w.Accepts input e P) (hmode : w.Modeless)
    (hv : w.validate = .ok ()) (hcalled : w.Called e P feed d) (hattends : r.Attends feed m d)
    (hpending : d.outcomes.get r.outcome = none) (hplaced : r.outcome.index < d.outcomes.items.length)
    (hcalm : Calm (w.gone e feed) m
      ⟨d, [r.task (w.executeRun input e.freshId.1 (w.context e feed).token feed)]⟩) :
    Ends (w.Results input e) m
      ⟨d, [r.task (w.executeRun input e.freshId.1 (w.context e feed).token feed)]⟩ := by
  obtain ⟨m₁, d₁, hpoll, hreads, hm₁⟩ := hattends.poll_pending hpending hcalled.roomy
  obtain ⟨p', d₂, hleaves, hu, hleads⟩ :=
    (hcalled.reads hreads).begins hseat hsv hmode hv (BackgroundRun.calm_task hcalm hpoll)
  have hb : Beside w input e P feed r m₁ p' d₂ := .of_turns hu hreads hleads hm₁ hpending hplaced
  exact ends_turned hpoll hleaves hb hcalm fun _ now hgo hb' hcalm' => hb'.ends hseat hsv hgo hcalm'

end WorkflowEngine.Workflow
