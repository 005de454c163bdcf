import WorkflowEngine.Proofs.Fiber.Turns
import WorkflowEngine.Workflow.Background

/-!
# Readers of streams

What a caller may do with the stream of a run: pause, read an event, and at any point read no further and
wait for the outcome. Main statements: a turn of such a reader reads its feed only, and leaves it reading or
gives the outcome of the run; and while it cannot go on, it waits for a later time, or the run has no outcome
and nothing keeps it from telling more.
-/

namespace WorkflowEngine

/-- What the reader of a stream does. After the next event, it goes on as that event asks for. -/
inductive Reader where
  | finish
  | pause (ms : Nat) (next : Reader)
  | read (next : Option WorkflowEvent → Reader)

/-- Reads a stream to its end, with no more than a number of events. -/
def Reader.drain : Nat → Reader
  | 0 => finish
  | events + 1 => read fun event => if event.isSome then drain events else finish

namespace RunStream

def follow (s : RunStream) : Reader → Fiber Engine (Except Fault WorkflowRun)
  | .finish => s.finish
  | .pause ms next => do
    Fiber.sleep ms
    s.follow next
  | .read next => do
    let event ← s.next
    s.follow (next event)

end RunStream

/-- What a reader may do: it changes nothing but what is in the feeds, and reopens none. -/
def Engine.Reads (e e' : Engine) : Prop :=
  ∃ feeds, e' = { e with feeds } ∧ ∀ feed, (feeds.get feed).capacity = (e.feeds.get feed).capacity ∧
    ((e.feeds.get feed).closed = true → (feeds.get feed).closed = true)

namespace Engine

variable {e e' e'' : Engine}

theorem Reads.refl (e : Engine) : e.Reads e := ⟨e.feeds, rfl, fun _ => ⟨rfl, id⟩⟩

theorem Reads.trans (h : e.Reads e') (h' : e'.Reads e'') : e.Reads e'' := by
  obtain ⟨_, rfl, hf⟩ := h
  obtain ⟨feeds, rfl, hf'⟩ := h'
  exact ⟨feeds, rfl, fun feed => ⟨(hf' feed).1.trans (hf feed).1, fun hc => (hf' feed).2 ((hf feed).2 hc)⟩⟩

/-- A change of a feed that keeps its capacity and does not reopen it. -/
private theorem Reads.modify (feed : Ref Feed) {change : Feed → Feed}
    (hcapacity : ∀ f, (change f).capacity = f.capacity)
    (hclosed : ∀ f, f.closed = true → (change f).closed = true) :
    e.Reads { e with feeds := e.feeds.modify feed change } := by
  refine ⟨_, rfl, fun other => ?_⟩
  rcases Pool.get_modify_cases e.feeds feed other change with hget | ⟨-, -, hget⟩
  · rw [hget]
    exact ⟨rfl, id⟩
  · rw [hget]
    exact ⟨hcapacity _, hclosed _⟩

theorem reads_closeFeed (feed : Ref Feed) : e.Reads (e.closeFeed feed) :=
  .modify feed (fun _ => rfl) fun _ _ => rfl

theorem reads_takeEvent {feed : Ref Feed} {event : WorkflowEvent}
    (h : e.takeEvent? feed = some (event, e')) : e.Reads e' := by
  unfold takeEvent? at h
  split at h
  · cases h
  · cases h
    exact .modify feed (fun _ => rfl) fun _ hc => hc

/-- A feed that there can be room in is closed when its reading ends. -/
theorem closed_closeFeed {feed : Ref Feed} (h : 0 < (e.feeds.get feed).capacity) :
    ((e.closeFeed feed).feeds.get feed).closed = true := by
  have hindex : feed.index < e.feeds.items.length := by
    refine Nat.lt_of_not_le fun hout => ?_
    rw [Pool.get, Pool.get?, List.getElem?_eq_none hout] at h
    exact absurd h (by decide)
  have hget : (e.closeFeed feed).feeds.get feed =
      { e.feeds.get feed with closed := true, queue := [] } := Pool.get_modify_self hindex _
  rw [hget]

/-- What a reader does, and the passing of time: the feeds keep their capacities. -/
def Idles (e e' : Engine) : Prop :=
  ∃ now feeds, e' = { e with now, feeds } ∧
    ∀ feed, (feeds.get feed).capacity = (e.feeds.get feed).capacity

theorem Idles.refl (e : Engine) : e.Idles e := ⟨e.now, e.feeds, rfl, fun _ => rfl⟩

theorem Idles.trans (h : e.Idles e') (h' : e'.Idles e'') : e.Idles e'' := by
  obtain ⟨_, _, rfl, hc⟩ := h
  obtain ⟨now, feeds, rfl, hc'⟩ := h'
  exact ⟨now, feeds, rfl, fun feed => (hc' feed).trans (hc feed)⟩

theorem Idles.time (e : Engine) (now : Nat) : e.Idles { e with now } :=
  ⟨now, e.feeds, rfl, fun _ => rfl⟩

/-- There can be room in a feed, if there is one. -/
def Roomy (e : Engine) (feed : Option (Ref Feed)) : Prop :=
  ∀ f, feed = some f → 0 < (e.feeds.get f).capacity

theorem Roomy.keep {feed : Option (Ref Feed)} (h : e.Roomy feed)
    (hc : ∀ f, (e'.feeds.get f).capacity = (e.feeds.get f).capacity) : e'.Roomy feed :=
  fun f hf => (hc f).symm ▸ h f hf

theorem Reads.idles (h : e.Reads e') : e.Idles e' := by
  obtain ⟨feeds, rfl, hkept⟩ := h
  exact ⟨e.now, feeds, rfl, fun feed => (hkept feed).1⟩

theorem Reads.outcomes (h : e.Reads e') : e'.outcomes = e.outcomes := by
  obtain ⟨feeds, rfl, -⟩ := h
  rfl

theorem Idles.roomy {feed : Option (Ref Feed)} (hi : e.Idles e') (h : e.Roomy feed) :
    e'.Roomy feed := by
  obtain ⟨now, feeds, rfl, hkept⟩ := hi
  exact h.keep hkept

end Engine

namespace BackgroundRun

/-- A caller who attends a run: the reader of its stream, or one who waits for its outcome. -/
inductive Attends (r : BackgroundRun) (feed : Option (Ref Feed)) :
    Fiber Engine (Except Fault WorkflowRun) → Engine → Prop
  | follows {f : Ref Feed} (hf : feed = some f) (reader : Reader) {e : Engine} :
      Attends r feed ((⟨r, f⟩ : RunStream).follow reader) e
  | pausing {f : Ref Feed} (hf : feed = some f) (reader : Reader) (due : Nat) {e : Engine} :
      Attends r feed (.wait (some due) (fun e => if due ≤ e.now then some ((), e) else none)
        fun _ => (⟨r, f⟩ : RunStream).follow reader) e
  | waiting {e : Engine} (hc : ∀ f, feed = some f → (e.feeds.get f).closed = true) :
      Attends r feed r.wait e

/-- How a caller stands after a turn. -/
inductive Attended (r : BackgroundRun) (feed : Option (Ref Feed)) (e : Engine) :
    Progress Engine (Except Fault WorkflowRun) → Prop
  | waiting {m : Fiber Engine (Except Fault WorkflowRun)} {e' : Engine} (he : e.Reads e')
      (hm : Attends r feed m e') : Attended r feed e (.waiting m e')
  | done {q : Except Fault WorkflowRun} {e' : Engine} (he : e.Reads e')
      (hq : e'.outcomes.get r.outcome = some q) : Attended r feed e (.done q e')

variable {r : BackgroundRun} {feed : Option (Ref Feed)} {e e' : Engine}

theorem Attended.after {p : Progress Engine (Except Fault WorkflowRun)}
    (h : Attended r feed e' p) (he : e.Reads e') : Attended r feed e p := by
  cases h with
  | waiting he' hm => exact .waiting (he.trans he') hm
  | done he' hq => exact .done (he.trans he') hq

private theorem wait_poll (hc : ∀ f, feed = some f → (e.feeds.get f).closed = true) :
    Attended r feed e (r.wait.poll e) := by
  unfold wait Fiber.await
  rw [Fiber.poll]
  cases ho : r.outcome? e with
  | none => exact .waiting (.refl e) (.waiting hc)
  | some q => exact .done (.refl e) ho

private theorem pausing_poll {f : Ref Feed} (hf : feed = some f) (reader : Reader) (due : Nat)
    (hnext : Attended r feed e (((⟨r, f⟩ : RunStream).follow reader).poll e)) :
    Attended r feed e ((Fiber.wait (some due) (fun e => if due ≤ e.now then some ((), e) else none)
      fun _ => (⟨r, f⟩ : RunStream).follow reader).poll e) := by
  rw [Fiber.poll]
  by_cases hdue : due ≤ e.now
  · rw [if_pos hdue]
    exact hnext
  · rw [if_neg hdue]
    exact .waiting (.refl e) (.pausing hf reader due)

private theorem follow_read (f : Ref Feed) (next : Option WorkflowEvent → Reader) :
    (⟨r, f⟩ : RunStream).follow (.read next) = .wait none (fun e =>
      match e.takeEvent? f with
      | some (event, e) => some (some event, e)
      | none => if r.isFinished e then some (none, e) else none)
      fun event => (⟨r, f⟩ : RunStream).follow (next event) :=
  rfl

/-- A turn of the reader of a stream. -/
private theorem follow_poll {f : Ref Feed} (hf : feed = some f) (reader : Reader)
    (hroom : 0 < (e.feeds.get f).capacity) :
    Attended r feed e (((⟨r, f⟩ : RunStream).follow reader).poll e) := by
  induction reader generalizing e with
  | finish =>
    have hwait : Attended r feed (e.closeFeed f) (r.wait.poll (e.closeFeed f)) := by
      refine wait_poll fun f' hf' => ?_
      obtain rfl : f = f' := Option.some.inj (hf.symm.trans hf')
      exact Engine.closed_closeFeed hroom
    exact hwait.after (Engine.reads_closeFeed f)
  | pause ms next ih => exact pausing_poll hf next (e.now + ms) (ih hroom)
  | read next ih =>
    rw [follow_read, Fiber.poll, ← follow_read]
    cases htake : e.takeEvent? f with
    | some q =>
      obtain ⟨event, e'⟩ := q
      have hreads := Engine.reads_takeEvent htake
      refine (ih (some event) ?_).after hreads
      obtain ⟨feeds, rfl, hkept⟩ := hreads
      exact (hkept f).1.symm ▸ hroom
    | none =>
      cases r.isFinished e with
      | true => exact ih none hroom
      | false => exact .waiting (.refl e) (.follows hf (.read next))

namespace Attends

variable {m : Fiber Engine (Except Fault WorkflowRun)}

/-- A turn of a caller reads the feed only, and leaves the caller attending or gives the outcome. -/
theorem poll (h : Attends r feed m e) (hroom : ∀ f, feed = some f → 0 < (e.feeds.get f).capacity) :
    Attended r feed e (m.poll e) := by
  cases h with
  | follows hf reader => exact follow_poll hf reader (hroom _ hf)
  | pausing hf reader due => exact pausing_poll hf reader due (follow_poll hf reader (hroom _ hf))
  | waiting hc => exact wait_poll hc

/-- A caller goes on attending while no feed is reopened. -/
theorem keep (h : Attends r feed m e)
    (hc : ∀ f, (e.feeds.get f).closed = true → (e'.feeds.get f).closed = true) :
    Attends r feed m e' := by
  cases h with
  | follows hf reader => exact .follows hf reader
  | pausing hf reader due => exact .pausing hf reader due
  | waiting hw => exact .waiting fun f hf => hc f (hw f hf)

/-- A caller who cannot go on waits for a time, or the run has no outcome and nothing in its feed. -/
theorem waits (h : Attends r feed m e) (hgo : m.canGoOn e = false) :
    m.due.isSome ∨ e.outcomes.get r.outcome = none ∧
      ∀ f, feed = some f → (e.feeds.get f).closed = true ∨ (e.feeds.get f).queue = [] := by
  cases h with
  | pausing hf reader due => exact .inl rfl
  | waiting hc =>
    have hnone : r.outcome? e = none := by simpa [wait, Fiber.await, Fiber.canGoOn] using hgo
    exact .inr ⟨hnone, fun f hf => .inl (hc f hf)⟩
  | @follows f hf reader =>
    cases reader with
    | finish | pause => cases hgo
    | read next =>
      rw [follow_read, Fiber.canGoOn] at hgo
      cases htake : e.takeEvent? f with
      | some q => simp [htake] at hgo
      | none =>
        have hnone : r.outcome? e = none := by
          simp only [htake] at hgo
          cases ho : r.outcome? e with
          | none => rfl
          | some q => simp [isFinished, ho] at hgo
        refine .inr ⟨hnone, fun f' hf' => .inr ?_⟩
        obtain rfl : f = f' := Option.some.inj (hf.symm.trans hf')
        unfold Engine.takeEvent? at htake
        split at htake
        · assumption
        · cases htake

/-- The time that a caller waits for has not come while it cannot go on. -/
theorem now_lt (h : Attends r feed m e) (hgo : m.canGoOn e = false) {due : Nat}
    (hdue : m.due = some due) : e.now < due := by
  cases h with
  | pausing hf reader time =>
    cases hdue
    simpa [Fiber.canGoOn] using hgo
  | waiting hc => cases hdue
  | follows hf reader =>
    cases reader with
    | finish | pause | read => cases hdue

end Attends

end BackgroundRun

end WorkflowEngine
