import WorkflowEngine.Proofs.Fiber.Turns
import WorkflowEngine.Proofs.Run.Tasks

/-!
# Liveliness of tasks

A run waits for time to pass, and a streamed one for room in its feed. Both come when its audience goes
on: the reader of the feed, if there is one, reads on, and time passes. Main statements: every event is
told then, every sleep is over, and every script comes to its end that does not abort.
-/

namespace WorkflowEngine

open Fiber

/-- A script that does not abort, whatever it finds. -/
def Script.Steady {ε α : Type} : Script ε α → Prop
  | finish _ | fail _ => True
  | look next => ∀ state, (next state).Steady
  | change _ next | sleep _ next | cancel next | emit _ next => next.Steady
  | cancelled next => ∀ b, (next b).Steady
  | count _ next => ∀ calls, (next calls).Steady
  | abort _ => False

/-- The reader of a feed reads on, and time passes. -/
inductive Reading (feed : Ref Feed) (e : Engine) : Engine → Prop
  | refl : Reading feed e e
  | read {e' e'' : Engine} {event : WorkflowEvent} (h : Reading feed e e')
      (ht : e'.takeEvent? feed = some (event, e'')) : Reading feed e e''
  | wait {e' : Engine} (h : Reading feed e e') (ms : Nat) :
      Reading feed e { e' with now := e'.now + ms }

/-- A feed that may hold an event, and its reader. -/
def readership (feed : Ref Feed) : Support Engine where
  sound e := ∃ f, e.feeds.get? feed = some f ∧ 0 < f.capacity
  helps := Reading feed
  refl _ := .refl

/-- Time passes. -/
inductive Passing (e : Engine) : Engine → Prop
  | after (ms : Nat) : Passing e { e with now := e.now + ms }

/-- What a run counts on: time that passes, and the reader of its feed if it has one. -/
def audience : Option (Ref Feed) → Support Engine
  | some feed => readership feed
  | none => { sound := fun _ => True, helps := Passing, refl := fun _ => .after 0 }

namespace Reading

variable {feed : Ref Feed} {e : Engine} {f : Feed} {event : WorkflowEvent}

/-- What waits for the reader can be read. -/
private theorem emptied (queue : List WorkflowEvent)
    (h : e.feeds.get? feed = some { f with queue }) :
    ∃ e', Reading feed e e' ∧ e'.feeds.get? feed = some { f with queue := [] } := by
  suffices ∀ e', Reading feed e e' → e'.feeds.get? feed = some { f with queue } →
      ∃ e', Reading feed e e' ∧ e'.feeds.get? feed = some { f with queue := [] } from this e .refl h
  clear h
  induction queue with
  | nil => exact fun e' he hf => ⟨e', he, hf⟩
  | cons event rest ih =>
    intro e' he hf
    have htake : e'.takeEvent? feed = some (event,
        { e' with feeds := e'.feeds.modify feed fun f => { f with queue := rest } }) := by
      rw [Engine.takeEvent?, Pool.get_of_get? hf]
    refine ih _ (he.read htake) ?_
    rw [Pool.get?_modify_self, hf]
    rfl

/-- A feed comes to have room. -/
theorem offer (h : (readership feed).sound e) :
    ∃ e', Reading feed e e' ∧ (RunContext.offer? feed event e').isSome := by
  obtain ⟨f, hf, hcapacity⟩ := h
  obtain ⟨e', he, hf'⟩ := emptied f.queue hf
  refine ⟨e', he, ?_⟩
  rw [RunContext.offer?, Pool.get_of_get? hf']
  dsimp only
  split
  · rfl
  · rw [if_pos (by exact hcapacity)]
    rfl

/-- A feed keeps its capacity while it is read. -/
theorem sound {e' : Engine} (h : Reading feed e e') (hs : (readership feed).sound e) :
    (readership feed).sound e' := by
  induction h with
  | refl => exact hs
  | @read e₁ e₂ event _ ht ih =>
    obtain ⟨f, hf, hcapacity⟩ := ih
    unfold Engine.takeEvent? at ht
    split at ht
    · cases ht
    · rename_i rest _
      cases ht
      refine ⟨{ f with queue := rest }, ?_, hcapacity⟩
      rw [Pool.get?_modify_self, hf]
      rfl
  | wait _ ms ih => exact ih

end Reading

variable {ctx : RunContext}

namespace RunContext

/-- An event is told when it finds room with some help, if there is a feed. -/
private theorem lively_announced {feed : Ref Feed} {kind : EventKind}
    {ready : WorkflowEvent → Engine → Option (Unit × Engine)}
    (h : ∀ event e, (offer? feed event e).isSome → (ready event e).isSome) :
    Lively (readership feed) ((ctx.announce kind).bind fun event => Fiber.await none (ready event)) := by
  refine fun event => ⟨fun e he => ?_, fun _ => trivial⟩
  obtain ⟨e', he', hr⟩ := Reading.offer he
  exact ⟨e', he', h event e' hr⟩

theorem lively_emit (ctx : RunContext) (kind : EventKind) :
    Lively (audience ctx.feed) (ctx.emit kind) := by
  unfold emit
  cases ctx.feed with
  | none =>
    split
    · trivial
    · exact fun _ => trivial
  | some feed => exact lively_announced fun event e h => by simp [h]

theorem lively_emitTerminal (ctx : RunContext) (kind : EventKind) :
    Lively (audience ctx.feed) (ctx.emitTerminal kind) := by
  unfold emitTerminal
  cases ctx.feed with
  | none => exact fun _ => trivial
  | some feed => exact lively_announced fun event e h => h

end RunContext

theorem lively_sleep (feed : Option (Ref Feed)) (ms : Nat) :
    Lively (audience feed) (Fiber.sleep ms) := by
  refine fun now => ⟨fun e he => ?_, fun _ => trivial⟩
  cases feed with
  | none => exact ⟨_, .after (now + ms), by simp⟩
  | some feed => exact ⟨_, Reading.refl.wait (now + ms), by simp⟩

/-- A script that does not abort is lively when what it sends is told. -/
theorem Script.Steady.lively {ε α : Type} {script : Script ε α} (h : script.Steady)
    {send : ε → Fiber Engine Unit} (hs : ∀ event, Lively (audience ctx.feed) (send event)) :
    Lively (audience ctx.feed) (script.run ctx send) := by
  induction script with
  | finish a | fail fault => trivial
  | look next ih => exact fun state => ih state (h state)
  | change f next ih => exact fun _ => ih h
  | sleep ms next ih => exact (lively_sleep ctx.feed ms).bind fun _ => ih h
  | cancel next ih => exact fun _ => ih h
  | cancelled next ih => exact fun b => ih b (h b)
  | emit event next ih => exact (hs event).bind fun _ => ih h
  | count tally next ih => exact fun calls => ih calls (h calls)
  | abort message => exact h

/-! ## Tasks -/

namespace RunTask

variable {α β : Type} {S : Support Engine}

/-- A task that comes to its end with some help. -/
abbrev Lively (S : Support Engine) (t : RunTask α) : Prop := Fiber.Lively S t.run

namespace Lively

theorem ofResult (q : Except Fault α) : Lively S (RunTask.ofResult q) := trivial

theorem pure (a : α) : Lively S (Pure.pure a) := trivial

theorem throw (fault : Fault) : Lively S (MonadExcept.throw fault : RunTask α) := trivial

theorem bind {t : RunTask α} {f : α → RunTask β} (h : Lively S t) (hf : ∀ a, Lively S (f a)) :
    Lively S (t >>= f) := by
  unfold Lively
  rw [run_bind]
  refine Fiber.Lively.bind h fun r => ?_
  cases r with
  | error fault => trivial
  | ok a => exact hf a

/-- A sequence that begins with a fiber. -/
theorem lift {p : Fiber Engine α} {f : α → RunTask β} (h : Fiber.Lively S p)
    (hf : ∀ a, Lively S (f a)) : Lively S (liftM p >>= f) := by
  unfold Lively
  rw [run_lift_bind]
  exact Fiber.Lively.bind h hf

theorem update {step : Engine → α × Engine} {f : α → RunTask β} (hf : ∀ a, Lively S (f a)) :
    Lively S (liftM (Fiber.update step) >>= f) :=
  lift (fun _ => trivial) hf

theorem checkCancelled : Lively S ctx.checkCancelled := by
  refine update fun cancelled => ?_
  cases cancelled <;> trivial

end Lively

end RunTask

end WorkflowEngine
