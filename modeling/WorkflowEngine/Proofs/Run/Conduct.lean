import WorkflowEngine.Proofs.Fiber.Accounts
import WorkflowEngine.Run.Context

/-!
# The conduct of a run

What the work of a run may do to the engine it shares with others: it changes its own working copy
of the session state, cancels, tells of its progress and notes what happens in it. It touches no
other state, no session, no store and no entry of another run's journal.
-/

namespace WorkflowEngine

namespace RunContext

/-- What an act of a run's own work does, and what it notes in the journal. -/
structure Acts (ctx : RunContext) (e : Engine) (t : List Happening) (e' : Engine) : Prop where
  journal : e'.journal = (t.map fun h => (ctx.runId, h)).reverse ++ e.journal
  inner : ∀ h ∈ t, h.isInner
  states : ∀ r, r ≠ ctx.state → e'.states.get? r = e.states.get? r
  size : e'.states.items.length = e.states.items.length
  tokens : ∀ r, e.isCancelled r → e'.isCancelled r
  slots : e'.slots = e.slots
  stores : e'.stores = e.stores
  files : e'.files = e.files
  outcomes : e'.outcomes = e.outcomes
  generated : e'.generated = e.generated

namespace Acts

variable {ctx : RunContext} {e e' e'' : Engine} {t u : List Happening}

theorem refl (ctx : RunContext) (e : Engine) : ctx.Acts e [] e :=
  ⟨rfl, by simp, fun _ _ => rfl, rfl, fun _ h => h, rfl, rfl, rfl, rfl, rfl⟩

theorem append (h : ctx.Acts e t e') (h' : ctx.Acts e' u e'') : ctx.Acts e (t ++ u) e'' where
  journal := by rw [h'.journal, h.journal]; simp
  inner := fun a ha => (List.mem_append.1 ha).elim (h.inner a) (h'.inner a)
  states := fun r hr => (h'.states r hr).trans (h.states r hr)
  size := h'.size.trans h.size
  tokens := fun r hr => h'.tokens r (h.tokens r hr)
  slots := h'.slots.trans h.slots
  stores := h'.stores.trans h.stores
  files := h'.files.trans h.files
  outcomes := h'.outcomes.trans h.outcomes
  generated := h'.generated.trans h.generated

/-- The run's journal grows by what an act notes. -/
theorem of_journal (h : ctx.Acts e t e') :
    e'.journal.of ctx.runId = e.journal.of ctx.runId ++ t := by
  rw [h.journal]
  simp [Journal.of, List.filterMap_append, List.filterMap_reverse, List.filterMap_map]

end Acts

/-- The discipline of a run's own work. -/
def discipline (ctx : RunContext) : Discipline Engine Happening where
  allows := ctx.Acts
  nil := Acts.refl ctx
  append := Acts.append

variable {ctx : RunContext} {α β : Type}

/-! ## Acts -/

theorem acts_note (h : Happening) (hi : h.isInner) (e : Engine) :
    ctx.Acts e [h] (e.note ctx.runId h) :=
  { Acts.refl ctx e with
    journal := by simp [Engine.note]
    inner := by simpa using hi }

theorem acts_readClock (e : Engine) : ctx.Acts e [] e.readClock.2 := { Acts.refl ctx e with }

theorem acts_publish (bus : Option (Ref EventBus)) (event : WorkflowEvent) (e : Engine) :
    ctx.Acts e [] (e.publish bus event) := by
  cases bus <;> exact { Acts.refl ctx e with }

theorem acts_offer {feed : Ref Feed} {event : WorkflowEvent} {e e' : Engine} {a : Unit}
    (h : offer? feed event e = some (a, e')) : ctx.Acts e [] e' := by
  unfold offer? at h
  dsimp only at h
  split at h
  · cases h
    exact Acts.refl ctx e
  · split at h
    · cases h
      exact { Acts.refl ctx e with }
    · cases h

/-- What an event that finds room, or none after a cancellation, does to the shared state. -/
theorem acts_offer_or {feed : Ref Feed} {event : WorkflowEvent} {e e' : Engine} {a : Unit}
    (h : (offer? feed event e).or (if e.isCancelled ctx.token then some ((), e) else none) =
      some (a, e')) : ctx.Acts e [] e' := by
  cases hoffer : offer? feed event e with
  | some r =>
    rw [hoffer] at h
    cases h
    exact acts_offer hoffer
  | none =>
    rw [hoffer, Option.none_or] at h
    split at h <;> cases h
    exact Acts.refl ctx e

theorem acts_setState (s : SessionState) (e : Engine) :
    ctx.Acts e [] (e.setState ctx.state s) :=
  { Acts.refl ctx e with
    states := fun _ hr => Pool.get?_set_ne _ hr _
    size := Pool.size_set _ _ _ }

theorem acts_cancel (e : Engine) : ctx.Acts e [] (e.cancel ctx.token) :=
  { Acts.refl ctx e with
    tokens := fun r hr => by
      unfold Engine.isCancelled Engine.cancel at *
      rcases Pool.get_set_cases e.tokens ctx.token r ⟨true⟩ with h | h <;> simp [h, hr] }

theorem acts_count (tally : Ref Tally) (e : Engine) : ctx.Acts e [] (e.count tally).2 :=
  { Acts.refl ctx e with }

/-! ## Fibers that add nothing to the journal -/

/-- A fiber of the run that adds nothing to its journal. -/
abbrev Silent (ctx : RunContext) (p : Fiber Engine α) : Prop :=
  Fiber.Obeys ctx.discipline p .silent

namespace Silent

theorem done (a : α) : ctx.Silent (.done a) := rfl

theorem update {step : Engine → α × Engine} (h : ∀ e, ctx.Acts e [] (step e).2) :
    ctx.Silent (Fiber.update step) :=
  Fiber.Obeys.update rfl fun e => ⟨[], h e, rfl⟩

theorem look (f : Engine → α) : ctx.Silent (Fiber.look f) := update fun e => Acts.refl ctx e

theorem await {due : Option Nat} {ready : Engine → Option (α × Engine)}
    (h : ∀ e a e', ready e = some (a, e') → ctx.Acts e [] e') :
    ctx.Silent (Fiber.await due ready) :=
  Fiber.Obeys.await rfl fun e a e' he => ⟨[], h e a e' he, rfl⟩

theorem bind {p : Fiber Engine α} {k : α → Fiber Engine β} (hp : ctx.Silent p)
    (hk : ∀ a, ctx.Silent (k a)) : ctx.Silent (p.bind k) :=
  hp.silent_bind rfl hk

theorem act {step : Engine → β × Engine} {next : β → Fiber Engine α}
    (h : ∀ e, ctx.Acts e [] (step e).2) (hn : ∀ b, ctx.Silent (next b)) :
    ctx.Silent (.act step next) :=
  ⟨rfl, fun e => ⟨[], h e, hn _⟩⟩

/-- What a silent fiber moves on to is silent. -/
theorem of_moves {p p' : Fiber Engine α} {e e' : Engine} (h : ctx.Silent p)
    (hm : Fiber.Moves p e p' e') : ctx.Acts e [] e' ∧ ctx.Silent p' := by
  obtain ⟨t, ht, hp⟩ := Fiber.Obeys.of_moves hm h
  obtain rfl : t = [] := by
    simpa [Account.after, Account.silent] using hp.now
  exact ⟨ht, by simpa using hp⟩

theorem of_evolves {others : Engine → Engine → Prop} {p p' : Fiber Engine α} {e e' : Engine}
    (h : ctx.Silent p) (he : Fiber.Evolves others p e p' e') : ctx.Silent p' := by
  induction he with
  | refl => exact h
  | move _ hm ih => exact (ih.of_moves hm).2
  | other _ _ ih => exact ih

end Silent

theorem silent_isCancelled (ctx : RunContext) : ctx.Silent ctx.isCancelled := .look _

theorem silent_announce (ctx : RunContext) (kind : EventKind) : ctx.Silent (ctx.announce kind) :=
  .update fun e => (acts_readClock e).append (acts_publish _ _ _)

theorem silent_emit (ctx : RunContext) (kind : EventKind) : ctx.Silent (ctx.emit kind) := by
  unfold emit
  split
  · exact .done ()
  · refine .bind (silent_announce ctx kind) fun event => ?_
    split
    · exact .done ()
    · exact .await fun e a e' h => acts_offer_or h

theorem silent_time (ctx : RunContext) : ctx.Silent Fiber.time := .look _

theorem silent_sleep (ctx : RunContext) (ms : Nat) : ctx.Silent (Fiber.sleep ms) := by
  refine .bind (silent_time ctx) fun now => .await fun e a e' h => ?_
  split at h <;> cases h
  exact Acts.refl ctx e

theorem silent_script {ε : Type} {send : ε → Fiber Engine Unit}
    (hs : ∀ event, ctx.Silent (send event)) (script : Script ε α) : ctx.Silent (script.run ctx send) := by
  induction script with
  | finish a => exact .done _
  | fail fault => exact .done _
  | look next ih => exact .act (fun e => Acts.refl ctx e) ih
  | change f next ih => exact .act (fun e => acts_setState _ e) fun _ => ih
  | sleep ms next ih => exact .bind (silent_sleep ctx ms) fun _ => ih
  | cancel next ih => exact .act (fun e => acts_cancel e) fun _ => ih
  | cancelled next ih => exact .act (fun e => Acts.refl ctx e) ih
  | emit event next ih => exact .bind (hs event) fun _ => ih
  | count tally next ih => exact .act (fun e => acts_count tally e) ih
  | abort message => exact rfl

end RunContext

end WorkflowEngine
