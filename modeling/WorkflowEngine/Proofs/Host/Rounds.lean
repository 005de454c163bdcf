import WorkflowEngine.Host
import WorkflowEngine.Proofs.Host.Readers
import WorkflowEngine.Proofs.Run.Elapsing

/-!
# Rounds of a host

In a round the awaited fiber and every task take a turn; when none of them can go on, the time jumps.
Main statements: to await a fiber is to go from round to round, and what came out in some rounds comes out
in more of them. A run goes on as a task beside a caller who attends it: once the run is over, its caller
comes out with its outcome, whatever was still to be read.
-/

namespace WorkflowEngine

namespace Host

variable {α : Type} {main main' : Fiber Engine α} {h h' : Host} {bad : Engine → Bool}

/-- What becomes of an awaited fiber in a round. -/
inductive Round (α : Type) where
  | ended (a : Awaited α) (h : Host)
  | onward (main : Fiber Engine α) (h : Host)

/-- What becomes of fibers after their turns: something can go on, or the time jumps, or all are stuck. -/
def afterTurns (main : Fiber Engine α) (tasks : List HostTask) (engine : Engine) : Round α :=
  if main.canGoOn engine || tasks.any (·.work.canGoOn engine) then .onward main { engine, tasks }
  else match nextDue main tasks with
    | some due => .onward main { engine := { engine with now := max engine.now due }, tasks }
    | none => .ended .stuck { engine, tasks }

def round (main : Fiber Engine α) (h : Host) : Round α :=
  match main.poll h.engine with
  | .done a engine => .ended (.done a) { h with engine }
  | .aborted message engine => .ended (.aborted message) { h with engine }
  | .waiting main engine => afterTurns main (turn h.tasks engine).1 (turn h.tasks engine).2

/-- To await a fiber is to go from round to round. -/
theorem awaitWithin_succ (rounds : Nat) (main : Fiber Engine α) (h : Host) :
    awaitWithin (rounds + 1) main h = match round main h with
      | .ended a h => (a, h)
      | .onward main h => awaitWithin rounds main h := by
  rw [awaitWithin, round]
  cases main.poll h.engine with
  | done a engine | aborted message engine => rfl
  | waiting main engine =>
    dsimp only [afterTurns]
    split
    · rfl
    · cases nextDue main (turn h.tasks engine).1 <;> rfl

/-- What came out in some rounds comes out in more of them. -/
theorem await_of_le {rounds more : Nat} {a : α} (hd : h.await main rounds = (.done a, h'))
    (hle : rounds ≤ more) : h.await main more = (.done a, h') := by
  unfold await at hd ⊢
  induction rounds generalizing main h more with
  | zero => cases hd
  | succ rounds ih =>
    obtain ⟨more, rfl⟩ := Nat.exists_eq_succ_of_ne_zero (Nat.ne_of_gt (Nat.zero_lt_of_lt hle))
    rw [awaitWithin_succ] at hd ⊢
    cases hr : round main h with
    | ended a h => rwa [hr] at hd
    | onward main h =>
      rw [hr] at hd
      exact ih hd (Nat.le_of_succ_le_succ hle)

/-- Fibers go on after their turns, perhaps at a later time, unless none of them can go on nor waits for a
time. -/
theorem afterTurns_on {tasks : List HostTask} {engine : Engine}
    (hw : main.canGoOn engine = false → tasks.any (·.work.canGoOn engine) = false →
      (nextDue main tasks).isSome) :
    ∃ now, afterTurns main tasks engine = .onward main ⟨{ engine with now }, tasks⟩ ∧
      ((main.canGoOn engine || tasks.any (·.work.canGoOn engine)) = true ∧ now = engine.now ∨
        ∃ due, nextDue main tasks = some due ∧ due ≤ now) := by
  unfold afterTurns
  cases hgo : main.canGoOn engine || tasks.any (·.work.canGoOn engine) with
  | true => exact ⟨engine.now, rfl, .inl ⟨rfl, rfl⟩⟩
  | false =>
    obtain ⟨hmain, htasks⟩ := Bool.or_eq_false_iff.1 hgo
    obtain ⟨due, hdue⟩ := Option.isSome_iff_exists.1 (hw hmain htasks)
    rw [hdue]
    exact ⟨_, rfl, .inr ⟨due, rfl, Nat.le_max_right _ _⟩⟩

/-- An awaited fiber comes out in some number of rounds, as it should. -/
def Ends (V : α → Engine → Prop) (main : Fiber Engine α) (h : Host) : Prop :=
  ∃ rounds a f, h.await main rounds = (.done a, f) ∧ V a f.engine

namespace Ends

variable {V : α → Engine → Prop}

theorem of_onward (hr : round main h = .onward main' h') (he : Ends V main' h') : Ends V main h := by
  obtain ⟨rounds, a, f, hawait, ha⟩ := he
  refine ⟨rounds + 1, a, f, ?_, ha⟩
  rw [await, awaitWithin_succ, hr]
  exact hawait

theorem of_ended {a : α} (hr : round main h = .ended (.done a) h') (ha : V a h'.engine) :
    Ends V main h := by
  refine ⟨1, a, h', ?_, ha⟩
  rw [await, awaitWithin_succ, hr]

end Ends

/-! ## Disturbances -/

/-- Whether a turn of some tasks is disturbed. -/
def turnDisturbed (bad : Engine → Bool) : List HostTask → Engine → Bool
  | [], _ => false
  | task :: rest, e => task.work.disturbed bad e || match task.work.poll e with
    | .done () e | .waiting _ e => turnDisturbed bad rest e
    | .aborted message e => turnDisturbed bad rest (noteAbort task message e)

def roundDisturbed (bad : Engine → Bool) (main : Fiber Engine α) (h : Host) : Bool :=
  main.disturbed bad h.engine || match main.poll h.engine with
    | .waiting _ engine => turnDisturbed bad h.tasks engine
    | .done _ _ | .aborted _ _ => false

/-- Whether a fiber that is awaited, or a task beside it, is disturbed within a number of rounds. -/
def disturbedWithin (bad : Engine → Bool) : Nat → Fiber Engine α → Host → Bool
  | 0, _, _ => false
  | rounds + 1, main, h => roundDisturbed bad main h || match round main h with
    | .ended _ _ => false
    | .onward main h => disturbedWithin bad rounds main h

/-- Nothing is disturbed, in however many rounds. -/
def Calm (bad : Engine → Bool) (main : Fiber Engine α) (h : Host) : Prop :=
  ∀ rounds, disturbedWithin bad rounds main h = false

/-- Whether a fiber comes out within a number of rounds in which nothing is disturbed. -/
def calmWithin (bad : Engine → Bool) (rounds : Nat) (main : Fiber Engine α) (h : Host) : Bool :=
  !disturbedWithin bad rounds main h && match (h.await main rounds).1 with
    | .done _ => true
    | .aborted _ | .stuck => false

namespace Calm

theorem round (hc : Calm bad main h) : roundDisturbed bad main h = false :=
  (Bool.or_eq_false_iff.1 (hc 1)).1

theorem next (hc : Calm bad main h) (hr : Host.round main h = .onward main' h') : Calm bad main' h' := by
  intro rounds
  have hrounds := (Bool.or_eq_false_iff.1 (hc (rounds + 1))).2
  rwa [hr] at hrounds

/-- Nothing is disturbed any more once the fiber has come out. -/
private theorem of_done {rounds : Nat} {a : α} (hd : h.await main rounds = (.done a, h'))
    (hc : disturbedWithin bad rounds main h = false) : Calm bad main h := by
  intro more
  unfold await at hd
  induction rounds generalizing main h more with
  | zero => cases hd
  | succ rounds ih =>
    cases more with
    | zero => rfl
    | succ more =>
      rw [awaitWithin_succ] at hd
      obtain ⟨hround, hc⟩ := Bool.or_eq_false_iff.1 hc
      refine Bool.or_eq_false_iff.2 ⟨hround, ?_⟩
      cases hr : Host.round main h with
      | ended a h => rfl
      | onward main h =>
        rw [hr] at hd hc
        exact ih hd hc more

/-- Nothing is disturbed when nothing is in the rounds in which the fiber comes out. -/
theorem of_within {rounds : Nat} (hc : calmWithin bad rounds main h = true) : Calm bad main h := by
  obtain ⟨hcalm, hd⟩ := Bool.and_eq_true_iff.1 hc
  rcases hawait : h.await main rounds with ⟨a, h'⟩
  rw [hawait] at hd
  cases a with
  | done a => exact of_done hawait (by simpa using hcalm)
  | aborted message | stuck => cases hd

end Calm

end Host

/-! ## Callers of runs in the background -/

namespace BackgroundRun

open Fiber Host

/-- The task of a run in the background. -/
def task (r : BackgroundRun) (p : Fiber Engine (Except Fault WorkflowRun)) : HostTask :=
  ⟨p.bind fun result => Fiber.modify (settle r.outcome result), some r.outcome⟩

/-- What is said of an outcome stays true whoever reads and whatever time passes. -/
def Steady (V : Except Fault WorkflowRun → Engine → Prop) : Prop :=
  ∀ q (e e' : Engine), e.Idles e' → V q e → V q e'

/-- A run is over, and its caller has not come out yet. -/
structure Settled (r : BackgroundRun) (feed : Option (Ref Feed))
    (m : Fiber Engine (Except Fault WorkflowRun)) (q : Except Fault WorkflowRun) (e : Engine) :
    Prop where
  outcome : e.outcomes.get r.outcome = some q
  roomy : e.Roomy feed
  attends : r.Attends feed m e

variable {r : BackgroundRun} {feed : Option (Ref Feed)} {e e' : Engine} {q : Except Fault WorkflowRun}
  {m m' p : Fiber Engine (Except Fault WorkflowRun)} {V : Except Fault WorkflowRun → Engine → Prop}

theorem task_canGoOn : (r.task p).work.canGoOn e = p.canGoOn e := by
  cases hp : p.isDone with
  | false => exact canGoOn_bind hp
  | true =>
    cases p with
    | done q => rfl
    | act | wait | race | both | abort => cases hp

theorem task_due (hp : p.isDone = false) : (r.task p).work.due = p.due := due_bind hp

/-- The turn of a run that is over then settles its outcome. -/
theorem turn_task_done (hp : p.poll e = .done q e') :
    Host.turn [r.task p] e = ([], settle r.outcome q e') := by
  simp only [turn, task, poll_bind, hp]
  rfl

theorem turn_task_waiting (hp : p.poll e = .waiting m e') :
    Host.turn [r.task p] e = ([r.task m], e') := by
  simp only [turn, task, poll_bind, hp]

/-- A turn of a run is undisturbed when the round is. -/
theorem calm_task {bad : Engine → Bool} (hcalm : Calm bad m ⟨e, [r.task p]⟩)
    (hpoll : m.poll e = .waiting m' e') : p.disturbed bad e' = false := by
  have hround := hcalm.round
  simp only [roundDisturbed, hpoll, turnDisturbed, task, disturbed_bind, Bool.or_eq_false_iff] at hround
  exact hround.2.1.1

/-- The caller of a run that is not over takes a turn. -/
theorem Attends.poll_pending (hm : r.Attends feed m e) (hpending : e.outcomes.get r.outcome = none)
    (hroom : e.Roomy feed) : ∃ m' e', m.poll e = .waiting m' e' ∧ e.Reads e' ∧ r.Attends feed m' e' := by
  have hattended := hm.poll hroom
  cases hpoll : m.poll e with
  | aborted message e' =>
    rw [hpoll] at hattended
    cases hattended
  | done q e' =>
    rw [hpoll] at hattended
    cases hattended with
    | done hreads hq =>
      rw [hreads.outcomes, hpending] at hq
      cases hq
  | waiting m' e' =>
    rw [hpoll] at hattended
    cases hattended with
    | waiting hreads hm' => exact ⟨m', e', rfl, hreads, hm'⟩

namespace Settled

theorem idle (h : r.Settled feed m q e) (now : Nat) : r.Settled feed m q { e with now } :=
  ⟨h.outcome, h.roomy, h.attends.keep fun _ hc => hc⟩

/-- After the turns of a round, a caller comes out when this is so once the caller can go on. -/
private theorem afterTurns (h : r.Settled feed m q e)
    (hnext : ∀ now, m.canGoOn { e with now } = true → r.Settled feed m q { e with now } →
      Ends V m ⟨{ e with now }, []⟩) :
    ∃ now, Host.afterTurns m [] e = .onward m ⟨{ e with now }, []⟩ ∧ Ends V m ⟨{ e with now }, []⟩ := by
  have hdue (hgo : m.canGoOn e = false) (_ : [].any (HostTask.work · |>.canGoOn e) = false) :
      (nextDue m []).isSome := by
    rcases h.attends.waits hgo with hdue | ⟨hnone, -⟩
    · exact hdue
    · rw [h.outcome] at hnone
      cases hnone
  obtain ⟨now, hon, hwhy⟩ := afterTurns_on hdue
  refine ⟨now, hon, hnext now ?_ (h.idle now)⟩
  rcases hwhy with ⟨hgo, rfl⟩ | ⟨due, hdue, hnow⟩
  · simpa using hgo
  · cases hgo : m.canGoOn { e with now } with
    | true => rfl
    | false => exact absurd ((h.idle now).attends.now_lt hgo hdue) (Nat.not_lt.2 hnow)

/-- A caller who can go on comes out with the outcome. -/
private theorem ends_going (hV : Steady V) (h : r.Settled feed m q e) (hq : V q e)
    (hgo : m.canGoOn e = true) : Ends V m ⟨e, []⟩ := by
  induction m using wellFounded_turn.induction generalizing e with
  | h m ih =>
    have hattended := h.attends.poll h.roomy
    cases hpoll : m.poll e with
    | aborted message e' =>
      rw [hpoll] at hattended
      cases hattended
    | done q' e' =>
      rw [hpoll] at hattended
      cases hattended with
      | done hreads hq' =>
        rw [hreads.outcomes, h.outcome] at hq'
        obtain rfl := Option.some.inj hq'
        exact .of_ended (by rw [Host.round, hpoll]) (hV _ _ _ hreads.idles hq)
    | waiting m' e' =>
      rw [hpoll] at hattended
      cases hattended with
      | waiting hreads hm =>
        have hleaves : Fiber.Leaves (m.poll e) m' e' := hpoll ▸ .waiting
        have hturn : Fiber.Turn m' m := ⟨e, e', by simp [hgo, isDone_of_waiting hpoll], hleaves⟩
        have hsettled : r.Settled feed m' q e' :=
          ⟨hreads.outcomes ▸ h.outcome, hreads.idles.roomy h.roomy, hm⟩
        obtain ⟨now, hon, hends⟩ := hsettled.afterTurns fun now hgo hsettled =>
          ih m' hturn hsettled (hV _ _ _ (hreads.idles.trans (.time e' now)) hq) hgo
        refine .of_onward ?_ hends
        rw [Host.round, hpoll]
        exact hon

/-- Once a run is over, its caller comes out with its outcome. -/
theorem ends (hV : Steady V) (h : r.Settled feed m q e) (hq : V q e) {m₀ : Fiber Engine _} {h₀ : Host}
    (hround : Host.round m₀ h₀ = Host.afterTurns m [] e) : Ends V m₀ h₀ := by
  obtain ⟨now, hon, hends⟩ := h.afterTurns fun now hgo hsettled =>
    hsettled.ends_going hV (hV _ _ _ (.time e now) hq) hgo
  exact .of_onward (hround.trans hon) hends

end Settled

end BackgroundRun

end WorkflowEngine
