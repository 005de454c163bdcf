import WorkflowEngine.Proofs.Fiber.Twins
import WorkflowEngine.Proofs.Run.Tasks

/-!
# Kin engines

Two engines are kin for a run when its work finds the same in both: the same time, states, tokens and
counts, the same calls of executors so far, and as much room in the feed. What is told besides, and what is
stored, may differ. Main statement: a script, and with it every task made of such parts, does the same in
kin engines, whatever it is told to tell.
-/

namespace WorkflowEngine

open Fiber

/-- A feed that has room for events at all and holds no more of them. -/
structure Feed.Sound (f : Feed) : Prop where
  roomy : 0 < f.capacity
  fits : f.queue.length ≤ f.capacity

/-- Two feeds with the same room for events. -/
structure Feed.Outlines (f f' : Feed) : Prop where
  sound : f.Sound
  capacity : f'.capacity = f.capacity
  length : f'.queue.length = f.queue.length
  closed : f'.closed = f.closed

namespace Feed.Outlines

variable {f f' f'' : Feed}

theorem symm (h : f.Outlines f') : f'.Outlines f where
  sound := ⟨h.capacity ▸ h.sound.roomy, h.capacity ▸ h.length ▸ h.sound.fits⟩
  capacity := h.capacity.symm
  length := h.length.symm
  closed := h.closed.symm

theorem trans (h : f.Outlines f') (h' : f'.Outlines f'') : f.Outlines f'' where
  sound := h.sound
  capacity := h'.capacity.trans h.capacity
  length := h'.length.trans h.length
  closed := h'.closed.trans h.closed

end Feed.Outlines

/-- The calls of executors in a run, in order. -/
def Journal.calls (j : Journal) (runId : String) : List Happening := (j.of runId).filter Happening.isCall

/-- What is no call of an executor does not count as one. -/
theorem Journal.calls_cons {a : Happening} (ha : a.isCall = false) (j : Journal) (id runId : String) :
    Journal.calls ((id, a) :: j) runId = j.calls runId := by
  by_cases h : id = runId <;> simp [calls, Journal.of, h, ha]

/-- Two engines in which the work of a run finds the same. -/
structure Kin (runId : String) (feed : Option (Ref Feed)) (e e' : Engine) : Prop where
  now : e'.now = e.now
  states : e'.states = e.states
  slots : e'.slots = e.slots
  tokens : e'.tokens = e.tokens
  tallies : e'.tallies = e.tallies
  calls : e'.journal.calls runId = e.journal.calls runId
  feeds : ∀ q, feed = some q → ∃ f f', e.feeds.get? q = some f ∧ e'.feeds.get? q = some f' ∧
    f.Outlines f'

namespace Kin

variable {runId : String} {feed : Option (Ref Feed)} {e e' e'' f f' : Engine}

theorem symm (h : Kin runId feed e e') : Kin runId feed e' e where
  now := h.now.symm
  states := h.states.symm
  slots := h.slots.symm
  tokens := h.tokens.symm
  tallies := h.tallies.symm
  calls := h.calls.symm
  feeds q hq := by
    obtain ⟨f, f', hf, hf', ho⟩ := h.feeds q hq
    exact ⟨f', f, hf', hf, ho.symm⟩

theorem trans (h : Kin runId feed e e') (h' : Kin runId feed e' e'') : Kin runId feed e e'' where
  now := h'.now.trans h.now
  states := h'.states.trans h.states
  slots := h'.slots.trans h.slots
  tokens := h'.tokens.trans h.tokens
  tallies := h'.tallies.trans h.tallies
  calls := h'.calls.trans h.calls
  feeds q hq := by
    obtain ⟨f, f', hf, hf', ho⟩ := h.feeds q hq
    obtain ⟨g, f'', hg, hf'', ho'⟩ := h'.feeds q hq
    obtain rfl : g = f' := Option.some.inj (hg.symm.trans hf')
    exact ⟨f, f'', hf, hf'', ho.trans ho'⟩

/-- Without a feed every engine is kin to itself, and so it is with a sound one. -/
theorem self (h : ∀ q, feed = some q → ∃ f, e.feeds.get? q = some f ∧ f.Sound) :
    Kin runId feed e e where
  now := rfl
  states := rfl
  slots := rfl
  tokens := rfl
  tallies := rfl
  calls := rfl
  feeds q hq := by
    obtain ⟨f, hf, hsound⟩ := h q hq
    exact ⟨f, f, hf, hf, hsound, rfl, rfl, rfl⟩

theorem of_none (hf : feed = none) : Kin runId feed e e := .self fun q hq => by
  rw [hf] at hq
  cases hq

theorem sound (h : Kin runId feed e e') :
    ∀ q, feed = some q → ∃ f, e.feeds.get? q = some f ∧ f.Sound := fun q hq => by
  obtain ⟨f, f', hf, hf', ho⟩ := h.feeds q hq
  exact ⟨f, hf, ho.sound⟩

theorem isCancelled (h : Kin runId feed e e') (token : Ref CancelToken) :
    e'.isCancelled token = e.isCancelled token := by
  rw [Engine.isCancelled, Engine.isCancelled, h.tokens]

/-! ## Acts in kin engines -/

theorem setState (h : Kin runId feed e e') (state : Ref SessionState) (s : SessionState) :
    Kin runId feed (e.setState state s) (e'.setState state s) :=
  { now := h.now, states := by rw [Engine.setState, Engine.setState, h.states], slots := h.slots,
    tokens := h.tokens, tallies := h.tallies, calls := h.calls, feeds := h.feeds }

theorem cancel (h : Kin runId feed e e') (token : Ref CancelToken) :
    Kin runId feed (e.cancel token) (e'.cancel token) :=
  { now := h.now, states := h.states, slots := h.slots,
    tokens := by rw [Engine.cancel, Engine.cancel, h.tokens], tallies := h.tallies, calls := h.calls,
    feeds := h.feeds }

theorem count (h : Kin runId feed e e') (tally : Ref Tally) :
    Kin runId feed (e.count tally).2 (e'.count tally).2 :=
  { now := h.now, states := h.states, slots := h.slots, tokens := h.tokens,
    tallies := by rw [Engine.count, Engine.count, h.tallies], calls := h.calls, feeds := h.feeds }

theorem note (h : Kin runId feed e e') (a : Happening) :
    Kin runId feed (e.note runId a) (e'.note runId a) :=
  { now := h.now, states := h.states, slots := h.slots, tokens := h.tokens, tallies := h.tallies,
    calls := by
      have hcalls := h.calls
      unfold Journal.calls at hcalls ⊢
      simp only [Engine.note, Journal.of_cons_self, List.filter_append, hcalls],
    feeds := h.feeds }

/-- The notes of a run do not matter, but for the calls of executors. -/
theorem note_self (h : Kin runId feed e e) {a : Happening} (ha : a.isCall = false) :
    Kin runId feed e (e.note runId a) :=
  { h with calls := Journal.calls_cons ha _ _ _ }

/-- What is told to others does not matter. -/
theorem publish_self (h : Kin runId feed e e) (bus : Option (Ref EventBus)) (event : WorkflowEvent) :
    Kin runId feed e (e.readClock.2.publish bus event) := by
  cases bus <;> exact { h with }

theorem publish (h : Kin runId feed e e') (bus : Option (Ref EventBus))
    (event event' : WorkflowEvent) :
    Kin runId feed (e.readClock.2.publish bus event) (e'.readClock.2.publish bus event') :=
  ((h.trans h.symm).publish_self bus event).symm.trans
    (h.trans ((h.symm.trans h).publish_self bus event'))

/-- A feed may be replaced by another one with the same room. -/
theorem refeed {q : Ref Feed} {feeds : Pool Feed} {l l' : Feed} (hq : feed = some q)
    (h : Kin runId feed e e) (hl : e.feeds.get? q = some l) (hl' : feeds.get? q = some l')
    (ho : l.Outlines l') : Kin runId feed e { e with feeds } :=
  { h with
    feeds := fun q' hq' => by
      obtain rfl : q' = q := Option.some.inj (hq'.symm.trans hq)
      exact ⟨l, l', hl, hl', ho⟩ }

theorem offer {q : Ref Feed} (hq : feed = some q) (h : Kin runId feed e e')
    (event event' : WorkflowEvent) :
    Option.Rel (fun r r' => r.1 = r'.1 ∧ Kin runId feed r.2 r'.2)
      (RunContext.offer? q event e) (RunContext.offer? q event' e') := by
  obtain ⟨f, f', hf, hf', ho⟩ := h.feeds q hq
  unfold RunContext.offer?
  rw [Pool.get_of_get? hf, Pool.get_of_get? hf']
  dsimp only
  by_cases hclosed : f.closed = true
  · rw [if_pos hclosed, if_pos (ho.closed.trans hclosed)]
    exact .some ⟨rfl, h⟩
  have hclosed' : ¬ f'.closed = true := by rwa [ho.closed]
  rw [if_neg hclosed, if_neg hclosed']
  by_cases hroom : f.queue.length < f.capacity
  · have hroom' : f'.queue.length < f'.capacity := by rwa [ho.length, ho.capacity]
    rw [if_pos hroom, if_pos hroom']
    refine .some ⟨rfl, { h with feeds := fun q' hq' => ?_ }⟩
    obtain rfl : q' = q := Option.some.inj (hq'.symm.trans hq)
    refine ⟨{ f with queue := f.queue ++ [event] }, { f' with queue := f'.queue ++ [event'] },
      ?_, ?_, ⟨ho.sound.roomy, ?_⟩, ho.capacity, ?_, ho.closed⟩
    · rw [Pool.get?_set_map, hf, Option.map_some]
    · rw [Pool.get?_set_map, hf', Option.map_some]
    · simpa using Nat.succ_le_of_lt hroom
    · simp [ho.length]
  · have hroom' : ¬ f'.queue.length < f'.capacity := by rwa [ho.length, ho.capacity]
    rw [if_neg hroom, if_neg hroom']
    exact .none

end Kin

/-! ## Fibers -/

/-- Fibers of a run that do the same in kin engines. -/
abbrev RunContext.Twins (ctx : RunContext) {α α' : Type} (V : α → α' → Prop) (p : Fiber Engine α)
    (p' : Fiber Engine α') : Prop :=
  Fiber.Twins (Kin ctx.runId ctx.feed) V p p'

/-- A fiber of a run that does the same in kin engines. -/
abbrev RunContext.Steady (ctx : RunContext) {α : Type} (p : Fiber Engine α) : Prop :=
  ctx.Twins Eq p p

namespace RunContext

variable {ctx : RunContext} {α β : Type}

theorem steady_update {step : Engine → β × Engine}
    (h : ∀ e e', Kin ctx.runId ctx.feed e e' →
      (step e').1 = (step e).1 ∧ Kin ctx.runId ctx.feed (step e).2 (step e').2) :
    ctx.Steady (Fiber.update step) :=
  .act (fun e e' hk => (h e e' hk).2) fun e e' hk => .done (h e e' hk).1.symm

theorem steady_time : ctx.Steady Fiber.time := steady_update fun _ _ hk => ⟨hk.now, hk⟩

theorem steady_isCancelled : ctx.Steady ctx.isCancelled :=
  steady_update fun _ _ hk => ⟨hk.isCancelled _, hk⟩

theorem steady_note (a : Happening) : ctx.Steady (ctx.note a) :=
  steady_update fun _ _ hk => ⟨rfl, hk.note a⟩

private theorem twins_announce (kind kind' : EventKind) :
    ctx.Twins (fun _ _ => True) (ctx.announce kind) (ctx.announce kind') :=
  .act (fun _ _ hk => hk.publish _ _ _) fun _ _ _ => .done trivial

/-- Whatever is told, it takes the same to tell it. -/
theorem twins_emit (kind kind' : EventKind) : ctx.Twins Eq (ctx.emit kind) (ctx.emit kind') := by
  unfold emit
  split
  · exact .done rfl
  · refine (twins_announce kind kind').bind fun event event' _ => ?_
    split
    · exact .done rfl
    · rename_i q hq
      refine .wait (fun e e' hk => ?_) fun _ => .done rfl
      have hoffer := hk.offer hq event event'
      rw [hk.isCancelled]
      generalize offer? q event e = r at hoffer
      generalize offer? q event' e' = r' at hoffer
      cases hoffer with
      | some h => exact .some h
      | none =>
        rw [Option.none_or, Option.none_or]
        split
        · exact .some ⟨rfl, hk⟩
        · exact .none

theorem steady_emit (kind : EventKind) : ctx.Steady (ctx.emit kind) := twins_emit kind kind

theorem twins_emitTerminal (kind kind' : EventKind) :
    ctx.Twins Eq (ctx.emitTerminal kind) (ctx.emitTerminal kind') := by
  refine (twins_announce kind kind').bind fun event event' _ => ?_
  split
  · exact .done rfl
  · rename_i hq
    exact .wait (fun e e' hk => hk.offer hq event event') fun _ => .done rfl

theorem steady_sleep (ms : Nat) : ctx.Steady (Fiber.sleep ms) := by
  refine steady_time.seq fun now => .wait (fun e e' hk => ?_) fun _ => .done rfl
  rw [hk.now]
  split
  · exact .some ⟨rfl, hk⟩
  · exact .none

/-- A script does the same in kin engines when what it sends does. -/
theorem steady_script {ε : Type} {send : ε → Fiber Engine Unit} (hs : ∀ event, ctx.Steady (send event))
    (script : Script ε α) : ctx.Steady (script.run ctx send) := by
  induction script with
  | finish a | fail fault => exact .done rfl
  | look next ih =>
    refine .act (fun _ _ hk => hk) fun e e' hk => ?_
    rw [hk.states]
    exact ih _
  | change f next ih =>
    refine .act (fun e e' hk => ?_) fun _ _ _ => ih
    rw [hk.states]
    exact hk.setState _ _
  | sleep ms next ih => exact (steady_sleep ms).seq fun _ => ih
  | cancel next ih => exact .act (fun _ _ hk => hk.cancel _) fun _ _ _ => ih
  | cancelled next ih =>
    refine .act (fun _ _ hk => hk) fun e e' hk => ?_
    rw [hk.isCancelled]
    exact ih _
  | emit event next ih => exact (hs event).seq fun _ => ih
  | count tally next ih =>
    refine .act (fun _ _ hk => hk.count tally) fun e e' hk => ?_
    rw [Engine.count, Engine.count, hk.tallies]
    exact ih _
  | abort message => exact .abort message

end RunContext

/-! ## Tasks -/

namespace RunTask

variable {ctx : RunContext} {α β : Type}

/-- A task of a run that does the same in kin engines. -/
abbrev Steady (ctx : RunContext) (t : RunTask α) : Prop := ctx.Steady t.run

namespace Steady

theorem ofResult (q : Except Fault α) : Steady ctx (RunTask.ofResult q) := .done rfl

theorem pure (a : α) : Steady ctx (Pure.pure a) := .done rfl

theorem throw (fault : Fault) : Steady ctx (MonadExcept.throw fault : RunTask α) := .done rfl

theorem bind {t : RunTask α} {f : α → RunTask β} (h : Steady ctx t) (hf : ∀ a, Steady ctx (f a)) :
    Steady ctx (t >>= f) := by
  unfold Steady
  rw [run_bind]
  refine h.seq fun q => ?_
  cases q with
  | error fault => exact .done rfl
  | ok a => exact hf a

/-- Sequences that begin with a fiber. -/
theorem lift {p : Fiber Engine α} {f : α → RunTask β} (h : ctx.Steady p) (hf : ∀ a, Steady ctx (f a)) :
    Steady ctx (liftM p >>= f) := by
  unfold Steady
  rw [run_lift_bind]
  exact h.seq hf

theorem checkCancelled : Steady ctx ctx.checkCancelled := by
  refine lift RunContext.steady_isCancelled fun cancelled => ?_
  cases cancelled with
  | true => exact .throw _
  | false => exact .pure _

end Steady

end RunTask

/-! ## Telling among others -/

/-- Others who take no notice of what a run tells, but for a reader who takes its events. -/
structure Unaware (runId : String) (feed : Option (Ref Feed)) (others : Engine → Engine → Prop) :
    Prop where
  follows : ∀ e e' f, Kin runId feed e e' → others e f → ∃ f', others e' f' ∧ Kin runId feed f f'
  reads : ∀ q, feed = some q → ∀ e event e', e.takeEvent? q = some (event, e') → others e e'

/-- Others who let time go by, while a reader takes events. -/
def Idling (feed : Option (Ref Feed)) (e e' : Engine) : Prop :=
  (∃ ms, e' = { e with now := e.now + ms }) ∨
    ∃ q event, feed = some q ∧ e.takeEvent? q = some (event, e')

private theorem takeEvent?_of_get? {e : Engine} {q : Ref Feed} {f : Feed} {first : WorkflowEvent}
    {rest : List WorkflowEvent} (hf : e.feeds.get? q = some f) (hqueue : f.queue = first :: rest) :
    ∃ feeds, e.takeEvent? q = some (first, { e with feeds }) ∧
      feeds.get? q = some { f with queue := rest } := by
  refine ⟨e.feeds.modify q fun f => { f with queue := rest }, ?_, ?_⟩
  · rw [Engine.takeEvent?, Pool.get_of_get? hf, hqueue]
  · rw [Pool.get?_modify_self, hf, Option.map_some]

/-- In kin engines a reader finds as many events. -/
theorem Kin.takeEvent? {runId : String} {feed : Option (Ref Feed)} {e e' f : Engine} {q : Ref Feed}
    {event : WorkflowEvent} (hq : feed = some q) (h : Kin runId feed e e')
    (ht : e.takeEvent? q = some (event, f)) :
    ∃ event' f', e'.takeEvent? q = some (event', f') ∧ Kin runId feed f f' := by
  obtain ⟨l, l', hl, hl', ho⟩ := h.feeds q hq
  cases hqueue : l.queue with
  | nil =>
    rw [Engine.takeEvent?, Pool.get_of_get? hl, hqueue] at ht
    cases ht
  | cons first rest =>
    have hlength : l'.queue.length = rest.length + 1 := by simp [ho.length, hqueue]
    obtain ⟨first', rest', hqueue'⟩ := List.exists_cons_of_length_eq_add_one hlength
    obtain ⟨feeds, htake, hfeeds⟩ := takeEvent?_of_get? hl hqueue
    obtain ⟨feeds', htake', hfeeds'⟩ := takeEvent?_of_get? hl' hqueue'
    rw [htake] at ht
    cases ht
    refine ⟨first', _, htake', { h with feeds := fun q' hq' => ?_ }⟩
    obtain rfl : q' = q := Option.some.inj (hq'.symm.trans hq)
    refine ⟨_, _, hfeeds, hfeeds', ⟨ho.sound.roomy, ?_⟩, ho.capacity, ?_, ho.closed⟩
    · have hfits := ho.sound.fits
      rw [hqueue] at hfits
      exact Nat.le_of_succ_le hfits
    · simpa [hqueue'] using hlength

theorem unaware_idling (runId : String) (feed : Option (Ref Feed)) : Unaware runId feed (Idling feed) where
  follows e e' f h ho := by
    rcases ho with ⟨ms, rfl⟩ | ⟨q, event, hq, ht⟩
    · exact ⟨_, .inl ⟨ms, rfl⟩, { h with now := congrArg (· + ms) h.now }⟩
    · obtain ⟨event', f', ht', hk⟩ := h.takeEvent? hq ht
      exact ⟨f', .inr ⟨q, event', hq, ht'⟩, hk⟩
  reads q hq e event e' ht := .inr ⟨q, event, hq, ht⟩

namespace RunContext

variable {ctx : RunContext} {others : Engine → Engine → Prop} {α β : Type}

/-- A fiber that can come to its end in a kin engine. -/
def Passes (ctx : RunContext) (others : Engine → Engine → Prop) (p : Fiber Engine α) : Prop :=
  ∀ e, Kin ctx.runId ctx.feed e e →
    ∃ a e', Evolves others p e (.done a) e' ∧ Kin ctx.runId ctx.feed e e'

theorem Passes.bind {p : Fiber Engine α} {k : α → Fiber Engine β} (h : ctx.Passes others p)
    (hk : ∀ a, ctx.Passes others (k a)) : ctx.Passes others (p.bind k) := by
  intro e he
  obtain ⟨a, e₁, hp, h₁⟩ := h e he
  obtain ⟨b, e₂, hq, h₂⟩ := hk a e₁ (h₁.symm.trans h₁)
  exact ⟨b, e₂, (hp.bind k).trans hq, h₁.trans h₂⟩

theorem Passes.done (a : α) : ctx.Passes others (.done a) := fun e he => ⟨a, e, .refl, he⟩

theorem Passes.update {step : Engine → α × Engine}
    (h : ∀ e, Kin ctx.runId ctx.feed e e → Kin ctx.runId ctx.feed e (step e).2) :
    ctx.Passes others (Fiber.update step) :=
  fun e he => ⟨_, _, Evolves.refl.move .act, h e he⟩

/-- An event is put into a feed that has room. -/
private theorem offer?_of_room {q : Ref Feed} {e : Engine} {f : Feed} (event : WorkflowEvent)
    (hf : e.feeds.get? q = some f) (hclosed : ¬ f.closed = true) (hroom : f.queue.length < f.capacity) :
    ∃ feeds, offer? q event e = some ((), { e with feeds }) ∧
      feeds.get? q = some { f with queue := f.queue ++ [event] } := by
  refine ⟨e.feeds.set q { f with queue := f.queue ++ [event] }, ?_, ?_⟩
  · unfold offer?
    rw [Pool.get_of_get? hf]
    dsimp only
    rw [if_neg hclosed, if_pos hroom]
  · rw [Pool.get?_set_map, hf, Option.map_some]

/-- While a reader takes its events, a feed has room for one more, and as much room again after it. -/
private theorem passes_offer {q : Ref Feed} (hu : Unaware ctx.runId ctx.feed others)
    (hq : ctx.feed = some q) {ready : Engine → Option (Unit × Engine)} (event : WorkflowEvent)
    (hr : ∀ e r, offer? q event e = some r → ready e = some r) :
    ctx.Passes others (Fiber.await none ready) := by
  intro e he
  obtain ⟨f, hf, hsound⟩ := he.sound q hq
  by_cases hclosed : f.closed = true
  · have hready : ready e = some ((), e) := by
      refine hr _ _ ?_
      unfold offer?
      rw [Pool.get_of_get? hf]
      exact if_pos hclosed
    exact ⟨(), e, Evolves.refl.move (.wait hready), he⟩
  cases hqueue : f.queue with
  | nil =>
    -- The reader takes the event itself.
    have hroom : f.queue.length < f.capacity := by rw [hqueue]; exact hsound.roomy
    obtain ⟨feeds, hput, hfeeds⟩ := offer?_of_room event hf hclosed hroom
    rw [hqueue] at hfeeds
    obtain ⟨feeds', htake, hfeeds'⟩ := takeEvent?_of_get? (e := { e with feeds }) hfeeds rfl
    exact ⟨(), { e with feeds := feeds' },
      (Evolves.refl.move (.wait (hr _ _ hput))).other (hu.reads q hq _ _ _ htake),
      he.refeed hq hf hfeeds' ⟨hsound, rfl, by simp [hqueue], rfl⟩⟩
  | cons first rest =>
    -- The reader first takes an earlier event, for there may be no room before.
    obtain ⟨feeds, htake, hfeeds⟩ := takeEvent?_of_get? hf hqueue
    have hroom : rest.length < f.capacity := by
      have hfits := hsound.fits
      rw [hqueue] at hfits
      exact hfits
    obtain ⟨feeds', hput, hfeeds'⟩ :=
      offer?_of_room (e := { e with feeds }) event hfeeds hclosed hroom
    exact ⟨(), { e with feeds := feeds' },
      (Evolves.refl.other (hu.reads q hq _ _ _ htake)).move (.wait (hr _ _ hput)),
      he.refeed hq hf hfeeds' ⟨hsound, rfl, by simp [hqueue], rfl⟩⟩

/-- An event can be told while a reader takes the events. -/
theorem passes_emit (hu : Unaware ctx.runId ctx.feed others) (kind : EventKind) :
    ctx.Passes others (ctx.emit kind) := by
  unfold emit
  split
  · exact .done ()
  · refine .bind (.update fun e he => he.publish_self _ _) fun event => ?_
    split
    · exact .done ()
    · rename_i q hq
      exact passes_offer hu hq event fun e r h => by simp [h]

/-- Without a feed the telling of an event waits for nothing. -/
theorem discreet_emit (hf : ctx.feed = none) (kind : EventKind) :
    Discreet (Kin ctx.runId ctx.feed) (ctx.emit kind) := by
  unfold emit
  split
  · exact .done ()
  · refine .act (fun e => (Kin.of_none hf).publish_self _ _) fun event => ?_
    rw [hf]
    exact .done ()

end RunContext

end WorkflowEngine
