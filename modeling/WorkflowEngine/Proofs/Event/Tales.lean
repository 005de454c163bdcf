import WorkflowEngine.Proofs.Event.Tellings
import WorkflowEngine.Proofs.Run.Tasks

/-!
# Tales

What the parts of a streamed run tell, as long as nobody cancels the run. An account is meant up to
a cancellation: once the run was found cancelled, it promises nothing more. Main statements: what
an event, a note, a script and stoppable work tell, and how the accounts of tasks are put together
from those of their parts.
-/

namespace WorkflowEngine

open TaskAccount

/-- What agrees with an account unless the run is found cancelled. A fiber need not have come to
its end where the history has. -/
def Account.calm {α : Type} (A : Account Telling α) : Account Telling α := fun t r =>
  .cancelled ∈ t ∨ ∃ q, A t q ∧ ∀ a, r = some a → q = some a

/-- Something is noted in the journal. -/
inductive noting {α : Type} (h : Happening) (a : α) : Account Telling α
  | idle : noting h a [] none
  | noted : noting h a [.noted h] (some a)

/-- An event of a kind is published and then delivered. -/
inductive saying {α : Type} (kind : EventKind) (a : α) : Account Telling α
  | idle : saying kind a [] none
  | published {event : WorkflowEvent} (h : event.kind = kind) : saying kind a [.published event] none
  | delivered {event : WorkflowEvent} (h : event.kind = kind) :
      saying kind a [.published event, .delivered event] (some a)

/-- Nothing is told. -/
inductive quiet {α : Type} : Account Telling α
  | done {a : α} : quiet [] (some a)

/-- Something holds of the history once the value is there. -/
def atEnd {α : Type} (P : List Telling → α → Prop) : Account Telling α := fun t r =>
  ∀ a, r = some a → P t a

theorem atEnd_none {α : Type} {P : List Telling → α → Prop} {t : List Telling} : atEnd P t none :=
  nofun

theorem atEnd_some {α : Type} {P : List Telling → α → Prop} {t : List Telling} {a : α} :
    atEnd P t (some a) ↔ P t a :=
  ⟨fun h => h a rfl, fun h _ ha => Option.some.inj ha ▸ h⟩

/-- The account of work that may be stopped wherever it stands. -/
inductive stopping {α : Type} (A : Account Telling α) : Account Telling (Option α)
  | under {t : List Telling} {q : Option α} (h : A t q) : stopping A t (q.map some)
  | stopped {t : List Telling} {q : Option α} (h : A t q) : stopping A t (some none)

/-- What follows a result: more on a value, nothing after a fault. -/
def TaskAccount.onward {α β : Type} (C : α → TaskAccount β Telling) :
    Except Fault α → TaskAccount β Telling
  | .ok a => C a
  | .error fault => fun t r => t = [] ∧ r = some (.error fault)

/-- The account of a task whose result is taken, be it a value or a fault. -/
def TaskAccount.result {α : Type} (A : TaskAccount α Telling) :
    TaskAccount (Except Fault α) Telling :=
  fun t r => ∃ q, A t q ∧ r = q.map .ok

namespace Outlet

variable {o : Outlet} {α β γ : Type}

/-- A fiber of a streamed run that agrees with an account unless the run is found cancelled. -/
abbrev Obeys (o : Outlet) (p : Fiber Engine α) (A : Account Telling α) : Prop :=
  Fiber.Obeys o.discipline p A.calm

/-- The contexts of a streamed run. -/
structure Serves (o : Outlet) (ctx : RunContext) : Prop where
  runId : ctx.runId = o.runId
  token : ctx.token = o.token
  feed : ctx.feed = some o.feed
  bus : ctx.bus = o.bus

namespace Obeys

variable {A : Account Telling α} {B : Account Telling β} {p : Fiber Engine α}

theorem mono {A' : Account Telling α} (h : o.Obeys p A) (hA : ∀ t r, A t r → A' t r) :
    o.Obeys p A' :=
  Fiber.Obeys.mono h fun _ _ ht => ht.imp_right fun ⟨q, hq, hr⟩ => ⟨q, hA _ _ hq, hr⟩

/-- A fiber may have told nothing yet. -/
theorem begins (h : o.Obeys p A) : ∃ q, A [] q := by
  rcases h.now with hc | ⟨q, hq, -⟩
  · cases hc
  · exact ⟨q, hq⟩

theorem done {a : α} (h : A [] (some a)) : o.Obeys (.done a) A := .inr ⟨_, h, fun _ => id⟩

/-- What is left of an account after something was told. -/
theorem after {t : List Telling} {C : Account Telling α} (h : o.Obeys p C)
    (hC : ∀ u r, C u r → A (t ++ u) r) : Fiber.Obeys o.discipline p (A.calm.after t) := by
  refine Fiber.Obeys.mono h fun u r hu => ?_
  rcases hu with hc | ⟨q, hq, hr⟩
  · exact .inl (List.mem_append_right _ hc)
  · exact .inr ⟨q, hC u q hq, hr⟩

/-- A sequence, with what its account says of each way the first part may stand. -/
theorem bind {k : α → Fiber Engine β} {C : α → Account Telling β} (hp : o.Obeys p A)
    (hk : ∀ a, o.Obeys (k a) (C a)) (hn : ∀ t, A t none → B t none)
    (hs : ∀ t a u r, A t (some a) → C a u r → B (t ++ u) r) : o.Obeys (p.bind k) B := by
  refine Fiber.Obeys.bind hp (fun t ht => ?_) fun t a ht => ?_
  · rcases ht with hc | ⟨_ | a, hq, -⟩
    · exact .inl hc
    · exact .inr ⟨none, hn t hq, nofun⟩
    · obtain ⟨r, hr⟩ := (hk a).begins
      exact .inr ⟨r, by simpa using hs t a [] r hq hr, nofun⟩
  · rcases ht with hc | ⟨q, hq, hr⟩
    · exact Fiber.Obeys.mono (hk a) fun u r _ => .inl (List.mem_append_left _ hc)
    · obtain rfl := hr a rfl
      exact (hk a).after fun u r => hs t a u r hq

/-- A sequence that begins without telling anything. -/
theorem quietly {k : α → Fiber Engine β} (hp : o.Obeys p quiet) (hk : ∀ a, o.Obeys (k a) B) :
    o.Obeys (p.bind k) B :=
  hp.bind hk (fun _ h => nomatch h) fun t a u r ht hu => by cases ht; exact hu

/-- A sequence that begins with an act that tells nothing. -/
theorem act [Nonempty γ] {step : Engine → γ × Engine} {next : γ → Fiber Engine α}
    (h : ∀ e, o.Tells e [] (step e).2) (hn : ∀ c, o.Obeys (next c) A) :
    o.Obeys (.act step next) A := by
  obtain ⟨q, hq⟩ := (hn (Classical.arbitrary γ)).begins
  exact ⟨.inr ⟨q, hq, nofun⟩, fun e => ⟨[], h e, hn _⟩⟩

theorem update [Nonempty α] {step : Engine → α × Engine} (h : ∀ e, o.Tells e [] (step e).2) :
    o.Obeys (Fiber.update step) quiet :=
  act h fun _ => done .done

theorem look [Nonempty α] (f : Engine → α) : o.Obeys (Fiber.look f) quiet :=
  update fun e => Tells.refl o e

theorem time : o.Obeys Fiber.time quiet := look _

theorem sleep (ms : Nat) : o.Obeys (Fiber.sleep ms) quiet := by
  refine quietly time fun now => ⟨.inr ⟨some (), .done, nofun⟩, fun e a e' h => ?_⟩
  dsimp only at h
  split at h <;> cases h
  exact ⟨[], Tells.refl o e, done .done⟩

/-! ## Events and notes -/

section Context

variable {ctx : RunContext} (hc : o.Serves ctx)
include hc

theorem note (h : Happening) : o.Obeys (ctx.note h) (noting h ()) := by
  refine ⟨.inr ⟨_, .idle, nofun⟩, fun e => ⟨[.noted h], ?_, .inr ⟨_, .noted, fun _ => id⟩⟩⟩
  exact .noted (by simp [Engine.note, hc.runId]) rfl rfl id

/-- An event that is announced and then put into the feed as soon as `ready` says so. -/
private theorem announced {kind : EventKind}
    {ready : WorkflowEvent → Engine → Option (Unit × Engine)}
    (h : ∀ event : WorkflowEvent, event.runId = o.runId → ∀ e a e', ready event e = some (a, e') →
      o.Tells e [.delivered event] e' ∨ o.Tells e [.cancelled] e') :
    o.Obeys ((ctx.announce kind).bind fun event => Fiber.await none (ready event))
      (saying kind ()) := by
  refine ⟨.inr ⟨_, .idle, nofun⟩, fun e => ?_⟩
  let event : WorkflowEvent := ⟨ctx.runId, ctx.sessionId, e.readClock.1, kind⟩
  have hid : event.runId = o.runId := hc.runId
  refine ⟨[.published event], ?_, .inr ⟨_, .published rfl, nofun⟩, fun e' a e'' hr => ?_⟩
  · have hread : o.Tells e [] e.readClock.2 := .silent rfl rfl rfl id
    have hpublished : o.Tells e.readClock.2 [.published event] _ := .published hid
    rw [← hc.bus] at hpublished
    exact hread.append hpublished
  · rcases h event hid e' a e'' hr with ht | ht
    · exact ⟨_, ht, .inr ⟨_, .delivered rfl, fun _ => id⟩⟩
    · exact ⟨_, ht, .inl (by simp)⟩

theorem emit (kind : EventKind) : o.Obeys (ctx.emit kind) (saying kind ()) := by
  unfold RunContext.emit
  rw [hc.feed]
  refine announced hc fun event hid e a e' h => ?_
  cases hoffer : RunContext.offer? o.feed event e with
  | some r =>
    rw [hoffer] at h
    cases h
    exact .inl (.delivered hid hoffer)
  | none =>
    rw [hoffer, Option.none_or] at h
    split at h <;> cases h
    rename_i hcancelled
    exact .inr (.cancelled (hc.token ▸ hcancelled))

/-- The last event is delivered also after a cancellation. -/
theorem emitTerminal (kind : EventKind) : o.Obeys (ctx.emitTerminal kind) (saying kind ()) := by
  unfold RunContext.emitTerminal
  rw [hc.feed]
  exact announced hc fun event hid e a e' h => .inl (.delivered hid h)

/-- Work that a cancellation stops. -/
theorem cancellable (hp : o.Obeys p A) :
    o.Obeys (Fiber.cancellable (fun e => e.isCancelled ctx.token) p)
      fun t r => ∃ q, A t q ∧ r = q.map some := by
  refine Fiber.Obeys.stoppable hp (fun t r ht => ?_) (fun t r _ e he => ?_) fun t b ht => ?_
  · exact ht.imp_right fun ⟨q, hq, _⟩ => ⟨_, ⟨q, hq, rfl⟩, nofun⟩
  · rw [Bool.or_false, hc.token] at he
    exact ⟨[.cancelled], .cancelled he, .inl (by simp)⟩
  · exact ht.imp_right fun ⟨q, hq, hr⟩ => ⟨_, ⟨q, hq, rfl⟩, by simp [hr b rfl]⟩

end Context

/-- A script tells what it sends. -/
theorem script {ctx : RunContext} {ε : Type} {send : ε → Fiber Engine Unit} {S : Account Telling Unit}
    {A : TaskAccount α Telling} (hs : ∀ event, o.Obeys (send event) S) (h₀ : ∀ r, A [] r)
    (hn : ∀ t, S t none → A t none) (hA : ∀ t u r, S t (some ()) → A u r → A (t ++ u) r)
    (script : Script ε α) : o.Obeys (script.run ctx send) A := by
  induction script with
  | finish a => exact done (h₀ _)
  | fail fault => exact done (h₀ _)
  | look next ih => exact act (fun e => Tells.refl o e) ih
  | change f next ih => exact act (fun e => .silent rfl rfl rfl id) fun _ => ih
  | sleep ms next ih => exact quietly (sleep ms) fun _ => ih
  | cancel next ih =>
    refine act (fun e => .silent rfl rfl rfl fun h => ?_) fun _ => ih
    unfold Engine.isCancelled Engine.cancel at *
    rcases Pool.get_set_cases e.tokens ctx.token o.token ⟨true⟩ with ht | ht <;> simp [ht, h]
  | cancelled next ih => exact act (fun e => Tells.refl o e) ih
  | emit event next ih => exact (hs event).bind (fun _ => ih) hn fun t _ u r ht => hA t u r ht
  | count tally next ih => exact act (fun e => .silent rfl rfl rfl id) ih
  | abort message => exact .inr ⟨none, h₀ none, nofun⟩

/-- Work that is stopped when its time is over. -/
theorem within {due : Nat} {expired : Engine → Bool} (hp : o.Obeys p A) :
    o.Obeys (Fiber.within due expired p) (stopping A) := by
  refine Fiber.Obeys.stoppable hp (fun t r ht => ?_) (fun t r ht e _ => ?_) fun t b ht => ?_
  · exact ht.imp_right fun ⟨q, hq, _⟩ => ⟨_, .under hq, nofun⟩
  · refine ⟨[], Tells.refl o e, ?_⟩
    rw [List.append_nil]
    exact ht.imp_right fun ⟨q, hq, _⟩ => ⟨_, .stopped hq, fun _ => id⟩
  · exact ht.imp_right fun ⟨q, hq, hr⟩ => ⟨_, .under hq, by simp [hr b rfl]⟩

/-- Fibers side by side. -/
theorem all {ps : List (Fiber Engine α)} {As : List (Account Telling α)}
    (h : List.Forall₂ (fun p A => o.Obeys p A) ps As) :
    o.Obeys (Fiber.all ps) (.together As) := by
  have hcalm : List.Forall₂ (fun p A => Fiber.Obeys o.discipline p A) ps (As.map Account.calm) :=
    List.forall₂_map_right_iff.2 h
  refine Fiber.Obeys.mono (Fiber.Obeys.all hcalm) fun t r ht => ?_
  -- One child that finds the run cancelled is enough.
  clear h hcalm
  induction As generalizing t r with
  | nil => exact .inr ⟨r, ht, fun _ => id⟩
  | cons A rest ih =>
    obtain ⟨u, p, v, q, hu, hv, hi, hr⟩ := ht
    rcases hu with hc | ⟨p', hp', hp⟩
    · exact .inl (hi.mem_iff.2 (.inl hc))
    · rcases ih _ _ hv with hc | ⟨q', hq', hq⟩
      · exact .inl (hi.mem_iff.2 (.inr hc))
      · refine .inr ⟨r, ⟨u, p', v, q', hp', hq', hi, fun as has => ?_⟩, fun _ => id⟩
        obtain ⟨a, bs, rfl, rfl, rfl⟩ := hr as has
        exact ⟨a, bs, hp a rfl, hq bs rfl, rfl⟩

/-! ## Tasks -/

section Tasks

variable {t : RunTask α} {f : α → RunTask β} {T : TaskAccount α Telling}
  {C : α → TaskAccount β Telling}

/-- A sequence of tasks. -/
theorem seq (ht : o.Obeys t.run T) (hf : ∀ a, o.Obeys (f a).run (C a)) :
    o.Obeys (t >>= f).run (T.bind C) := by
  rw [RunTask.run_bind]
  refine bind ht (C := onward C) (fun r => ?_) (fun u hu => .under hu) fun u r v q hu hv => ?_
  · cases r with
    | ok a => exact hf a
    | error fault => exact done ⟨rfl, rfl⟩
  · cases r with
    | ok a => exact .next hu hv
    | error fault =>
      obtain ⟨rfl, rfl⟩ := hv
      rw [List.append_nil]
      exact .fault hu

/-- A fiber as a task. -/
theorem lift {B : TaskAccount α Telling} (hp : o.Obeys p A) (hn : ∀ t, A t none → B t none)
    (hs : ∀ t a, A t (some a) → B t (some (.ok a))) :
    o.Obeys (liftM p : RunTask α).run B :=
  bind hp (C := fun a t r => t = [] ∧ r = some (.ok a)) (fun _ => done ⟨rfl, rfl⟩) hn
    fun t a u r ht hu => by
      obtain ⟨rfl, rfl⟩ := hu
      simpa using hs t a ht

/-- A task that begins with a fiber which tells nothing. -/
theorem quietTask {q : Fiber Engine γ} {f : γ → RunTask β} {B : TaskAccount β Telling}
    (hq : o.Obeys q quiet) (hf : ∀ c, o.Obeys (f c).run B) : o.Obeys (liftM q >>= f).run B := by
  rw [RunTask.run_lift_bind]
  exact hq.quietly hf

theorem ofResult {q : Except Fault α} :
    o.Obeys (RunTask.ofResult q).run (TaskAccount.ofResult q) :=
  done (TaskAccount.ofResult_some q)

theorem ret {a : α} : o.Obeys (pure a : RunTask α).run (TaskAccount.ret a) :=
  done (TaskAccount.ofResult_some _)

/-- A task whose value is changed by a function at its end. -/
theorem map {g : α → β} (ht : o.Obeys t.run T) :
    o.Obeys (t >>= fun a => pure (g a)).run (T.map g) := by
  rw [RunTask.run_bind]
  refine bind ht (C := fun r t q => t = [] ∧ q = some (r.map g)) (fun r => ?_)
    (fun u h => ⟨none, h, rfl⟩) fun u r v q hu hv => ?_
  · cases r <;> exact done ⟨rfl, rfl⟩
  · obtain ⟨rfl, rfl⟩ := hv
    exact ⟨some r, by simpa using hu, rfl⟩

theorem result (ht : o.Obeys t.run T) : o.Obeys t.result.run T.result :=
  bind ht (C := fun a t r => t = [] ∧ r = some (.ok a)) (fun _ => done ⟨rfl, rfl⟩)
    (fun t h => ⟨none, h, rfl⟩) fun t a u r ht hu => by
      obtain ⟨rfl, rfl⟩ := hu
      exact ⟨_, by simpa using ht, rfl⟩

/-- A task that goes on only if the run was not cancelled. -/
theorem checkCancelled {ctx : RunContext} (hc : o.Serves ctx) {f : Unit → RunTask β}
    {B : TaskAccount β Telling} (hf : o.Obeys (f ()).run B) :
    o.Obeys (ctx.checkCancelled >>= f).run B := by
  unfold RunContext.checkCancelled
  rw [bind_assoc, RunTask.run_lift_bind]
  obtain ⟨q, hq⟩ := hf.begins
  refine ⟨.inr ⟨q, hq, nofun⟩, fun e => ?_⟩
  dsimp only
  cases he : e.isCancelled ctx.token with
  | true => exact ⟨[.cancelled], .cancelled (hc.token ▸ he), .inl (by simp)⟩
  | false => exact ⟨[], Tells.refl o e, hf⟩

end Tasks

end Obeys

end Outlet

end WorkflowEngine
