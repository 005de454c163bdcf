import WorkflowEngine.Proofs.Run.Alike

/-!
# Confined tasks

A script within a realm, run outside of streaming mode, depends on its realm and on how much time goes by
only. The telling of events and the notes of a run do not show in any realm.
-/

namespace WorkflowEngine

variable {r : Realm} {ctx : RunContext} {lag : Nat} {α β : Type}

namespace Realm

variable {e e' : Engine}

/-- An act that leaves states, tallies, tokens and the time alone is within every realm. -/
theorem Frame.of_eq (hs : e'.states = e.states) (ht : e'.tallies = e.tallies)
    (hk : e'.tokens = e.tokens) (hn : e'.now = e.now) : r.Frame ctx e e' where
  copy := by rw [hs]
  keys key _ := by rw [hs]
  tallies tally _ := by rw [ht]
  now := hn
  cancelled := by rw [Engine.isCancelled, hk, Engine.isCancelled]

theorem Frame.announce (bus : Option (Ref EventBus)) (event : WorkflowEvent) :
    r.Frame ctx e (e.readClock.2.publish bus event) := by
  cases bus <;> exact .of_eq rfl rfl rfl rfl

/-- A change within a realm. -/
theorem Frame.change {f : SessionState → SessionState}
    (hkeep : ∀ s key, ¬ r.writes key → (f s).get? key = s.get? key) (e : Engine) :
    r.Frame ctx e (e.setState ctx.state (f (e.states.get ctx.state))) := by
  refine ⟨?_, fun key hk => ?_, fun _ _ => rfl, rfl, rfl⟩
  · rw [Engine.setState, Pool.get?_set_map, Option.isSome_map]
  · rw [Engine.setState, Pool.get, Pool.get?_set_map]
    cases hs : e.states.get? ctx.state with
    | none => rw [Pool.get, hs]; rfl
    | some s => exact hkeep _ key hk

/-- A count within a realm. -/
theorem Frame.count {tally : Ref Tally} (ht : r.tallies tally) (e : Engine) :
    r.Frame ctx e (e.count tally).2 :=
  ⟨rfl, fun _ _ => rfl, fun t hn => Pool.get?_modify_ne _ (fun he : t = tally => hn (he ▸ ht)) _,
    rfl, rfl⟩

/-- Acts without a trace in any realm come to the same. -/
theorem Tandem.of_frames {f f' : Engine} (hs : r.Same ctx e e')
    (h : ∀ r' : Realm, r'.Frame ctx e f) (h' : ∀ r' : Realm, r'.Frame ctx e' f') :
    r.Tandem ctx e e' f f' := by
  have hapart : nothing.Apart r := (apart_nothing r).symm
  exact ⟨h r, h' r, ((h _).same hapart).symm.trans (hs.trans ((h' _).same hapart))⟩

end Realm

namespace Fiber.Alike

open Realm

theorem look {f : Engine → β} {k k' : β → Fiber Engine α}
    (hk : ∀ e e', r.Matched ctx lag e e' → Alike r ctx lag (k (f e)) (k' (f e'))) :
    Alike r ctx lag ((Fiber.look f).bind k) ((Fiber.look f).bind k') :=
  .act (fun _ _ hm => .refl hm.same) hk

theorem time {k k' : Nat → Fiber Engine α}
    (hk : ∀ now, Alike r ctx lag (k now) (k' (now + lag))) :
    Alike r ctx lag (Fiber.time.bind k) (Fiber.time.bind k') := by
  refine look fun e e' hm => ?_
  rw [hm.now]
  exact hk e.now

theorem note (h : Happening) : Alike r ctx lag (ctx.note h) (ctx.note h) :=
  .act (fun _ _ hm => .of_frames hm.same (fun _ => .of_eq rfl rfl rfl rfl)
    fun _ => .of_eq rfl rfl rfl rfl) fun _ _ _ => .done ()

theorem emit (hf : ctx.feed = none) (kind : EventKind) :
    Alike r ctx lag (ctx.emit kind) (ctx.emit kind) := by
  unfold RunContext.emit
  rw [hf]
  split
  · exact .done ()
  · exact .act (fun _ _ hm => .of_frames hm.same (fun _ => .announce _ _) fun _ => .announce _ _)
      fun _ _ _ => .done ()

theorem sleep (ms : Nat) : Alike r ctx lag (Fiber.sleep ms) (Fiber.sleep ms) := by
  refine time fun now => ?_
  rw [Nat.add_right_comm]
  exact .wait (.done ())

end Fiber.Alike

/-! ## Scripts -/

namespace Script.KeepsTo

variable {ε : Type} {script : Script ε α}

private theorem tandem_change {f : SessionState → SessionState}
    (hkeep : ∀ s key, ¬ r.writes key → (f s).get? key = s.get? key)
    (hsame : ∀ s s', SessionState.AgreeOn r.sees s s' → SessionState.AgreeOn r.writes (f s) (f s'))
    {e e' : Engine} (h : r.Same ctx e e') :
    r.Tandem ctx e e' (e.setState ctx.state (f (e.states.get ctx.state)))
      (e'.setState ctx.state (f (e'.states.get ctx.state))) := by
  have hframe (e : Engine) : r.Frame ctx e (e.setState ctx.state (f (e.states.get ctx.state))) :=
    .change hkeep e
  refine ⟨hframe e, hframe e', ⟨?_, fun key hk => ?_, h.tallies⟩⟩
  · exact (hframe e).copy.trans (h.copy.trans (hframe e').copy.symm)
  · by_cases hw : r.writes key
    · have hkeys := h.keys
      have hcopy := h.copy
      simp only [Engine.setState, Pool.get, Pool.get?_set_map] at hkeys ⊢
      cases hs : e.states.get? ctx.state with
      | none =>
        have hs' : e'.states.get? ctx.state = none := by simpa [hs] using hcopy
        rw [hs']
      | some s =>
        obtain ⟨s', hs'⟩ : ∃ s', e'.states.get? ctx.state = some s' := by
          simpa [hs, Option.isSome_iff_exists] using hcopy
        rw [hs, hs'] at hkeys
        rw [hs']
        exact hsame s s' hkeys key hw
    · rw [(hframe e).keys key hw, (hframe e').keys key hw]
      exact h.keys key hk

private theorem tandem_count {tally : Ref Tally} (ht : r.tallies tally) {e e' : Engine}
    (h : r.Same ctx e e') :
    (e.count tally).1 = (e'.count tally).1 ∧
      r.Tandem ctx e e' (e.count tally).2 (e'.count tally).2 := by
  refine ⟨?_, .count ht e, .count ht e', ⟨h.copy, h.keys, fun t hr => ?_⟩⟩
  · rw [Engine.count, Engine.count, Pool.get, Pool.get, h.tallies tally ht]
  · rw [Engine.count, Engine.count]
    by_cases he : t = tally
    · subst he
      rw [Pool.get?_modify_self, Pool.get?_modify_self, h.tallies t ht]
    · rw [Pool.get?_modify_ne _ he, Pool.get?_modify_ne _ he, h.tallies t hr]

/-- A script within a realm is confined to it when what it sends is. -/
theorem alike (h : script.KeepsTo r) {send : ε → Fiber Engine Unit}
    (hs : ∀ event, Fiber.Alike r ctx lag (send event) (send event)) :
    Fiber.Alike r ctx lag (script.run ctx send) (script.run ctx send) := by
  induction script with
  | finish a | fail fault => exact .done _
  | look next ih =>
    refine .act (fun _ _ hm => .refl hm.same) fun e e' hm => ?_
    have hnext : next (e.states.get ctx.state) = next (e'.states.get ctx.state) :=
      h.1 _ _ hm.same.keys
    dsimp only
    rw [← hnext]
    exact ih _ (h.2 _)
  | change f next ih =>
    exact .act (fun _ _ hm => tandem_change h.1 h.2.1 hm.same) fun _ _ _ => ih h.2.2
  | sleep ms next ih => exact (Fiber.Alike.sleep ms).bind fun _ => ih h
  | cancel next => exact h.elim
  | cancelled next ih =>
    refine .act (fun _ _ hm => .refl hm.same) fun e e' hm => ?_
    dsimp only
    rw [hm.left, hm.right]
    exact ih false h
  | emit event next ih => exact (hs event).bind fun _ => ih h
  | count tally next ih =>
    refine .act (fun _ _ hm => (tandem_count h.1 hm.same).2) fun e e' hm => ?_
    rw [← (tandem_count h.1 hm.same).1]
    exact ih _ (h.2 _)
  | abort message => exact .abort message

end Script.KeepsTo

/-! ## Tasks -/

namespace RunTask

/-- Tasks that do the same within a realm, the second one some time after the first. -/
abbrev Alike (r : Realm) (ctx : RunContext) (lag : Nat) (t t' : RunTask α) : Prop :=
  Fiber.Alike r ctx lag t.run t'.run

namespace Alike

theorem ofResult (q : Except Fault α) : Alike r ctx lag (RunTask.ofResult q) (RunTask.ofResult q) :=
  .done q

theorem pure (a : α) : Alike r ctx lag (Pure.pure a : RunTask α) (Pure.pure a) := .done _

theorem throw (fault : Fault) :
    Alike r ctx lag (MonadExcept.throw fault : RunTask α) (MonadExcept.throw fault) :=
  .done _

theorem bind {t t' : RunTask α} {f f' : α → RunTask β} (h : Alike r ctx lag t t')
    (hf : ∀ a, Alike r ctx lag (f a) (f' a)) : Alike r ctx lag (t >>= f) (t' >>= f') := by
  unfold Alike
  rw [run_bind, run_bind]
  refine Fiber.Alike.bind h fun q => ?_
  cases q with
  | error fault => exact .done _
  | ok a => exact hf a

/-- Sequences that begin with a fiber. -/
theorem lift {p p' : Fiber Engine α} {f f' : α → RunTask β} (h : Fiber.Alike r ctx lag p p')
    (hf : ∀ a, Alike r ctx lag (f a) (f' a)) :
    Alike r ctx lag (liftM p >>= f) (liftM p' >>= f') := by
  unfold Alike
  rw [run_lift_bind, run_lift_bind]
  exact h.bind hf

/-- Sequences that begin by reading the time. -/
theorem time {f f' : Nat → RunTask β} (hf : ∀ now, Alike r ctx lag (f now) (f' (now + lag))) :
    Alike r ctx lag (liftM Fiber.time >>= f) (liftM Fiber.time >>= f') := by
  unfold Alike
  rw [run_lift_bind, run_lift_bind]
  exact .time hf

theorem checkCancelled : Alike r ctx lag ctx.checkCancelled ctx.checkCancelled := by
  unfold Alike RunContext.checkCancelled
  rw [run_lift_bind]
  refine .look fun e e' hm => ?_
  rw [hm.left, hm.right]
  exact .done _

end Alike

end RunTask

end WorkflowEngine
