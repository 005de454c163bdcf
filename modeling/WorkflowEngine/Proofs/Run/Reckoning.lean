import WorkflowEngine.Proofs.Run.Yields

/-!
# Reckoned tasks

A task comes to a reckoning when it yields what is reckoned, whether it is watched or not. Main statements:
a script comes to its own reckoning, whatever it sends; and a sequence of tasks comes to the sequence of
their reckonings.
-/

namespace WorkflowEngine

open Realm Fiber

variable {r : Realm} {ctx : RunContext} {v w : Scene} {α β γ δ : Type}

namespace Fiber.Yields

theorem pure {a : α} {V : α → Prop} (h : V a) : Yields ctx r (.done a) v V v := ⟨h, .refl r v⟩

/-- An act without a trace in any realm. -/
theorem update {step : Engine → α × Engine} {V : α → Prop}
    (hf : ∀ e, ∀ r' : Realm, r'.Tread ctx e (step e).2)
    (hV : ∀ e : Engine, e.isCancelled ctx.token = false → V (step e).1) :
    Yields ctx r (Fiber.update step) v V v :=
  fun e he hc _ =>
    ⟨hf e r, v, he.same ((hf e nothing).toFrame.same (apart_nothing r).symm), pure (hV e hc)⟩

theorem look {g : Engine → α} {V : α → Prop}
    (h : ∀ e : Engine, e.isCancelled ctx.token = false → V (g e)) :
    Yields ctx r (Fiber.look g) v V v :=
  update (fun e r' => .refl r' ctx e) h

theorem note (h : Happening) : Yields ctx r (ctx.note h) v (fun _ => True) v :=
  update (fun _ _ => .of_frame (.of_eq rfl rfl rfl rfl) rfl) fun _ _ => trivial

private theorem offered {feed : Ref Feed} {event : WorkflowEvent} {e e' : Engine} {u : Unit}
    (h : RunContext.offer? feed event e = some (u, e')) (r' : Realm) : r'.Tread ctx e e' := by
  unfold RunContext.offer? at h
  dsimp only at h
  split at h
  · cases h
    exact .refl r' ctx e
  · split at h
    · cases h
      have hget (other : Ref Feed) : ∃ queue, (e.feeds.set feed { e.feeds.get feed with
          queue := (e.feeds.get feed).queue ++ [event] }).get other =
            { e.feeds.get other with queue } := by
        by_cases ho : other = feed
        · subst ho
          rcases Pool.get_set_cases e.feeds other other _ with hget | hget
          · exact ⟨_, hget⟩
          · exact ⟨_, hget⟩
        · exact ⟨_, Pool.get_set_ne _ ho _⟩
      refine ⟨.of_eq rfl rfl rfl rfl, fun other => ?_, fun other => ?_⟩
      · obtain ⟨queue, hother⟩ := hget other
        rw [hother]
      · obtain ⟨queue, hother⟩ := hget other
        rw [hother]
    · cases h

private theorem blocked {feed : Ref Feed} {event : WorkflowEvent} {e : Engine}
    (hf : ctx.feed = some feed) (h : RunContext.offer? feed event e = none) : ctx.Blocked e := by
  unfold RunContext.offer? at h
  dsimp only at h
  split at h
  · cases h
  · rename_i hclosed
    split at h
    · cases h
    · rename_i hroom
      exact ⟨feed, hf, by simpa using hclosed, Nat.le_of_not_lt hroom⟩

private theorem announce (kind : EventKind) : Yields ctx r (ctx.announce kind) v (fun _ => True) v :=
  update (fun e _ => .of_frame (.announce _ _) (by cases ctx.bus <;> rfl)) fun _ _ => trivial

/-- An event is told at once or when there is room. -/
private theorem told {kind : EventKind} {feed : Ref Feed} (hf : ctx.feed = some feed)
    {ready : WorkflowEvent → Engine → Option (Unit × Engine)}
    (hnone : ∀ event e, ready event e = none → RunContext.offer? feed event e = none)
    (hsome : ∀ event (e : Engine) q, ready event e = some q → e.isCancelled ctx.token = false →
      RunContext.offer? feed event e = some q) :
    Yields ctx r ((ctx.announce kind).bind fun event => Fiber.await none (ready event)) v
      (fun _ => True) v := by
  refine (announce kind).bind fun event _ => ⟨fun e hr => ⟨nofun, .inr ?_⟩, fun e b e' hr hc => ?_⟩
  · exact blocked hf (hnone event e hr)
  · exact ⟨offered (hsome event e _ hr hc), pure trivial⟩

theorem emit (kind : EventKind) : Yields ctx r (ctx.emit kind) v (fun _ => True) v := by
  unfold RunContext.emit
  split
  · exact pure trivial
  · cases hf : ctx.feed with
    | none => exact (announce kind).bind fun _ _ => pure trivial
    | some feed =>
      refine told hf (fun event e hr => (Option.or_eq_none_iff.1 hr).1) fun event e q hr hc => ?_
      simpa [hc] using hr

theorem emitTerminal (kind : EventKind) :
    Yields ctx r (ctx.emitTerminal kind) v (fun _ => True) v := by
  unfold RunContext.emitTerminal
  cases hf : ctx.feed with
  | none => exact (announce kind).bind fun _ _ => pure trivial
  | some feed => exact told hf (fun _ _ hr => hr) fun _ _ _ hr _ => hr

theorem sleep (ms : Nat) : Yields ctx r (Fiber.sleep ms) v (fun _ => True) v := by
  have htime : Yields ctx r Fiber.time v (fun _ => True) v := look fun _ _ => trivial
  refine htime.bind fun now _ => ⟨fun e hr => ⟨fun d hd => ?_, .inl rfl⟩, fun e b e' hr _ => ?_⟩
  · cases hd
    dsimp only at hr
    split at hr
    · cases hr
    · omega
  · dsimp only at hr
    split at hr <;> cases hr
    exact ⟨fun r' => .refl r' ctx e, pure trivial⟩

/-- Work that nothing but its run's cancellation would stop. -/
theorem cancellable {body : Fiber Engine α} {V : α → Prop} (h : Yields ctx r body v V w) :
    Yields ctx r (Fiber.cancellable (fun e => e.isCancelled ctx.token) body) v
      (fun q => ∃ a, q = some a ∧ V a) w :=
  ⟨fun _ _ => nofun, V, w, h, fun a ha => pure ⟨a, rfl, ha⟩⟩

/-- Work whose time limit is not hit. -/
theorem within {body : Fiber Engine α} {V : α → Prop} (due : Nat) (h : Yields ctx r body v V w) :
    Yields ctx r (Fiber.within due (fun e => due ≤ e.now) body) v
      (fun q => ∃ a, q = some a ∧ V a) w := by
  refine ⟨fun e he d hd => ?_, V, w, h, fun a ha => pure ⟨a, rfl, ha⟩⟩
  cases hd
  simpa using he

end Fiber.Yields

/-! ## Scripts -/

/-- A script comes to its reckoning, whatever it sends. -/
theorem Script.StaysIn.yields {ε : Type} {script : Script ε α} (h : script.StaysIn r)
    {send : ε → Fiber Engine Unit}
    (hsend : ∀ event v, Yields ctx r (send event) v (fun _ => True) v) (v : Scene) :
    Yields ctx r (script.run ctx send) v (· = (script.reckon v).1) (script.reckon v).2 := by
  induction script generalizing v with
  | finish a | fail fault => exact Yields.pure rfl
  | look next ih =>
    intro e he hc _
    have hnext : next (e.states.get ctx.state) = next v.state := h.1 _ _ he.agree.keys
    refine ⟨.refl r ctx e, v, he, ?_⟩
    dsimp only
    rw [hnext]
    exact ih _ (h.2 _) v
  | change f next ih =>
    intro e he _ _
    have hframe : r.Frame ctx e (e.setState ctx.state (f (e.states.get ctx.state))) := .change h.1 e
    refine ⟨.of_frame hframe rfl, { v with state := f v.state }, ⟨hframe.copy ▸ he.copy, fun key hk => ?_, ?_⟩,
      ih h.2.2 _⟩
    · by_cases hw : r.writes key
      · obtain ⟨s, hcopy⟩ := Option.isSome_iff_exists.1 he.copy
        have hkeys := he.agree.keys
        simp only [Engine.scene, Engine.setState, Pool.get, Pool.get?_set_map, hcopy] at hkeys ⊢
        exact h.2.1 _ _ hkeys key hw
      · exact (hframe.keys key hw).trans ((he.agree.keys key hk).trans (h.1 v.state key hw).symm)
    · exact he.agree.tallies
  | sleep ms next ih => exact (Yields.sleep ms).bind fun _ _ => ih h v
  | cancel next ih =>
    intro e he hc hc'
    exact ⟨.of_frame ⟨rfl, fun _ _ => rfl, fun _ _ => rfl, rfl, hc'.trans hc.symm⟩ rfl, v,
      ⟨he.copy, he.agree⟩, ih h v⟩
  | cancelled next ih =>
    intro e he hc _
    refine ⟨.refl r ctx e, v, he, ?_⟩
    dsimp only
    rw [hc]
    exact ih false h v
  | emit event next ih => exact (hsend event v).bind fun _ _ => ih h v
  | count tally next ih =>
    intro e he _ _
    have hcalls : (e.count tally).1 = (v.tallies.get tally).calls := by
      rw [Engine.count, Pool.get, Pool.get]
      exact congrArg (fun t => (Option.getD t default).calls) (he.agree.tallies tally h.1)
    refine ⟨.of_frame (.count h.1 e) rfl, { v with tallies := v.tallies.modify tally fun t => ⟨t.calls + 1⟩ },
      ⟨he.copy, he.agree.keys, fun t ht => ?_⟩, ?_⟩
    · by_cases htally : t = tally
      · subst htally
        have hsame : e.tallies.get? t = v.tallies.get? t := he.agree.tallies t ht
        simp only [Engine.scene, Engine.count, Pool.get?_modify_self, hsame]
      · simp only [Engine.scene, Engine.count, Pool.get?_modify_ne _ htally]
        exact he.agree.tallies t ht
    · rw [hcalls]
      exact ih _ (h.2 _) _
  | abort message => trivial

/-! ## Tasks -/

/-- A task comes to a reckoning of what matters of its value. -/
def RunTask.Comes (r : Realm) (ctx : RunContext) (g : α → β) (t : RunTask α) (m : Reckoning β) :
    Prop :=
  ∀ v, Yields ctx r t.run v (fun q => q.map g = (m v).1) (m v).2

namespace RunTask.Comes

theorem ofResult {g : α → β} {q : Except Fault α} {q' : Except Fault β} (h : q.map g = q') :
    Comes r ctx g (RunTask.ofResult q) (Reckoning.ofResult q') :=
  fun _ => Yields.pure h

theorem given (q : Except Fault α) :
    Comes r ctx id (RunTask.ofResult q) (Reckoning.ofResult q) :=
  ofResult (by cases q <;> rfl)

theorem pure {g : α → β} {a : α} {b : β} (h : g a = b) :
    Comes r ctx g (Pure.pure a) (Pure.pure b) :=
  fun _ => Yields.pure (congrArg Except.ok h)

theorem throw {g : α → β} (fault : Fault) :
    Comes r ctx g (MonadExcept.throw fault : RunTask α) (Reckoning.ofResult (.error fault)) :=
  fun _ => Yields.pure rfl

theorem bind {g : α → β} {g' : γ → δ} {t : RunTask α} {m : Reckoning β} {f : α → RunTask γ}
    {k : β → Reckoning δ} (h : Comes r ctx g t m) (hf : ∀ a, Comes r ctx g' (f a) (k (g a))) :
    Comes r ctx g' (t >>= f) (m >>= k) := by
  intro v
  rw [run_bind]
  refine (h v).bind fun q hq => ?_
  cases q with
  | error fault =>
    have hm : m v = (.error fault, (m v).2) := Prod.ext hq.symm rfl
    rw [Reckoning.bind_error hm]
    exact Yields.pure rfl
  | ok a =>
    have hm : m v = (.ok (g a), (m v).2) := Prod.ext hq.symm rfl
    rw [Reckoning.bind_ok hm]
    exact hf a _

/-- A sequence that goes on with the result of a task, be it a value or a fault. -/
theorem result {g : α → β} {g' : γ → δ} {t : RunTask α} {m : Reckoning β}
    {f : Except Fault α → RunTask γ} {k : Except Fault β → Reckoning δ} (h : Comes r ctx g t m)
    (hf : ∀ q, Comes r ctx g' (f q) (k (q.map g))) :
    Comes r ctx g' (t.result >>= f) (m.result >>= k) := by
  intro v
  have hrun : (t.result >>= f).run = t.run.bind fun q => (f q).run := run_lift_bind t.run f
  rw [hrun]
  refine (h v).bind fun q hq => ?_
  have hm : m.result v = (.ok (q.map g), (m v).2) := Prod.ext (congrArg Except.ok hq.symm) rfl
  rw [Reckoning.bind_ok hm]
  exact hf q _

/-- A sequence that begins with a fiber which leaves the scene as it is. -/
theorem lift {p : Fiber Engine α} {V : α → Prop} {f : α → RunTask γ} {g : γ → δ}
    {m : Reckoning δ} (h : ∀ v, Yields ctx r p v V v) (hf : ∀ a, V a → Comes r ctx g (f a) m) :
    Comes r ctx g (liftM p >>= f) m := by
  intro v
  rw [run_lift_bind]
  exact (h v).bind fun a ha => hf a ha v

theorem checkCancelled {f : Unit → RunTask γ} {g : γ → δ} {m : Reckoning δ}
    (hf : Comes r ctx g (f ()) m) : Comes r ctx g (ctx.checkCancelled >>= f) m := by
  intro v
  unfold RunContext.checkCancelled
  rw [LawfulMonad.bind_assoc, run_lift_bind]
  have hgoes : Yields ctx r ctx.isCancelled v (· = false) v := Yields.look fun _ hc => hc
  refine hgoes.bind fun c hc => ?_
  subst hc
  exact hf v

end RunTask.Comes

end WorkflowEngine
