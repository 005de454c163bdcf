import WorkflowEngine.Proofs.Fiber.Accounts
import WorkflowEngine.Run.Context

/-!
# Tellings

What is told in a run whose events are read as they happen: its journal, its events, and whether it
was found cancelled. An event is published on the bus before it is delivered to the feed; in
between the run may wait for room.
-/

namespace WorkflowEngine

/-- What is told in a streamed run. -/
inductive Telling where
  | noted (h : Happening)
  /-- An event is published on the bus. -/
  | published (event : WorkflowEvent)
  /-- An event is put into the feed. -/
  | delivered (event : WorkflowEvent)
  /-- The run is found cancelled. -/
  | cancelled

namespace Telling

/-- What the journal notes. -/
def happenings : List Telling → List Happening
  | [] => []
  | noted h :: rest => h :: happenings rest
  | published _ :: rest | delivered _ :: rest | cancelled :: rest => happenings rest

/-- The events that are published, in order. -/
def publications : List Telling → List WorkflowEvent
  | [] => []
  | published event :: rest => event :: publications rest
  | noted _ :: rest | delivered _ :: rest | cancelled :: rest => publications rest

/-- The events that are delivered, in order. -/
def deliveries : List Telling → List WorkflowEvent
  | [] => []
  | delivered event :: rest => event :: deliveries rest
  | noted _ :: rest | published _ :: rest | cancelled :: rest => deliveries rest

@[simp] theorem happenings_append (t u : List Telling) :
    happenings (t ++ u) = happenings t ++ happenings u := by
  induction t with
  | nil => rfl
  | cons a t ih => cases a <;> simp [happenings, ih]

@[simp] theorem publications_append (t u : List Telling) :
    publications (t ++ u) = publications t ++ publications u := by
  induction t with
  | nil => rfl
  | cons a t ih => cases a <;> simp [publications, ih]

@[simp] theorem deliveries_append (t u : List Telling) :
    deliveries (t ++ u) = deliveries t ++ deliveries u := by
  induction t with
  | nil => rfl
  | cons a t ih => cases a <;> simp [deliveries, ih]

/-- The event that is published or delivered. -/
def event? : Telling → Option WorkflowEvent
  | published event | delivered event => some event
  | noted _ | cancelled => none

end Telling

/-- Puts events into a feed. One whose reader is gone takes any number and keeps none. -/
def Feed.put (f : Feed) (events : List WorkflowEvent) : Feed :=
  if f.closed then f else { f with queue := f.queue ++ events }

theorem Feed.put_put (f : Feed) (events later : List WorkflowEvent) :
    (f.put events).put later = f.put (events ++ later) := by
  unfold put
  cases h : f.closed <;> simp [h]

@[simp] theorem Feed.put_nil (f : Feed) : f.put [] = f := by
  unfold put
  split <;> simp

/-- Where a streamed run tells what it does. -/
structure Outlet where
  runId : String
  token : Ref CancelToken
  feed : Ref Feed
  bus : Option (Ref EventBus)

namespace Outlet

/-- An act of a run tells this. -/
structure Tells (o : Outlet) (e : Engine) (t : List Telling) (e' : Engine) : Prop where
  journal : e'.journal.of o.runId = e.journal.of o.runId ++ Telling.happenings t
  feed : e'.feeds.get? o.feed = (e.feeds.get? o.feed).map (·.put (Telling.deliveries t))
  bus : ∀ b, o.bus = some b → e'.buses.get? b =
    (e.buses.get? b).map fun bus => (Telling.publications t).foldl EventBus.publish bus
  lasts : e.isCancelled o.token → e'.isCancelled o.token
  found : .cancelled ∈ t → e'.isCancelled o.token
  tagged : ∀ a ∈ t, ∀ event, a.event? = some event → event.runId = o.runId

variable {o : Outlet} {e e' e'' : Engine} {t u : List Telling}

namespace Tells

open Telling (happenings publications deliveries event?)

/-- An act that leaves the run's journal, the feeds and the buses alone. -/
theorem silent (hj : e'.journal.of o.runId = e.journal.of o.runId) (hf : e'.feeds = e.feeds) (hb : e'.buses = e.buses)
    (hc : e.isCancelled o.token → e'.isCancelled o.token) : o.Tells e [] e' where
  journal := by simp [hj, happenings]
  feed := by simp [hf, deliveries]
  bus := by simp [hb, publications]
  lasts := hc
  found := by simp
  tagged := by simp [event?]

theorem refl (o : Outlet) (e : Engine) : o.Tells e [] e := silent rfl rfl rfl id

theorem append (h : o.Tells e t e') (h' : o.Tells e' u e'') : o.Tells e (t ++ u) e'' where
  journal := by simp [h'.journal, h.journal]
  feed := by simp [h'.feed, h.feed, Function.comp_def, Feed.put_put]
  bus := fun b hb => by simp [h'.bus b hb, h.bus b hb, Function.comp_def]
  lasts := fun hc => h'.lasts (h.lasts hc)
  found := fun hm => (List.mem_append.1 hm).elim (fun hm => h'.lasts (h.found hm)) h'.found
  tagged := fun a ha => (List.mem_append.1 ha).elim (h.tagged a) (h'.tagged a)

/-- An act that only notes something. -/
theorem noted {h : Happening} (hj : e'.journal = (o.runId, h) :: e.journal)
    (hf : e'.feeds = e.feeds) (hb : e'.buses = e.buses)
    (hc : e.isCancelled o.token → e'.isCancelled o.token) : o.Tells e [.noted h] e' where
  journal := by simp [hj, happenings]
  feed := by simp [hf, deliveries]
  bus := by simp [hb, publications]
  lasts := hc
  found := by simp
  tagged := by simp [event?]

/-- A run that is cancelled may be found so. -/
theorem cancelled (h : e.isCancelled o.token) : o.Tells e [.cancelled] e where
  journal := by simp [happenings]
  feed := by simp [deliveries]
  bus := by simp [publications]
  lasts := id
  found := fun _ => h
  tagged := by simp [event?]

/-- A feed that has a reader no more or has room is there. -/
private theorem feed_of_room {f : Ref Feed}
    (h : (e.feeds.get f).closed ∨ 0 < (e.feeds.get f).capacity) :
    e.feeds.get? f = some (e.feeds.get f) := by
  unfold Pool.get at *
  cases hg : e.feeds.get? f with
  | some f' => rfl
  | none =>
    rw [hg] at h
    rcases h with h | h <;> cases h

/-- An event that finds room is delivered. -/
theorem delivered {event : WorkflowEvent} {a : Unit} (hid : event.runId = o.runId)
    (h : RunContext.offer? o.feed event e = some (a, e')) : o.Tells e [.delivered event] e' := by
  unfold RunContext.offer? at h
  dsimp only at h
  split at h
  · rename_i hclosed
    cases h
    have hf := feed_of_room (.inl hclosed)
    exact
      { Tells.refl o e with
        journal := by simp [happenings]
        feed := by simp [hf, Feed.put, hclosed, deliveries]
        bus := by simp [publications]
        found := by simp
        tagged := by simp [event?, hid] }
  · rename_i hopen
    split at h <;> cases h
    rename_i hroom
    have hf := feed_of_room (.inr (Nat.lt_of_le_of_lt (Nat.zero_le _) hroom))
    have hin : o.feed.index < e.feeds.items.length := (List.getElem?_eq_some_iff.1 hf).1
    exact
      { Tells.refl o e with
        journal := by simp [happenings]
        feed := by simp [Pool.get?_set_self hin, hf, Feed.put, hopen, deliveries]
        bus := by simp [publications]
        found := by simp
        tagged := by simp [event?, hid] }

/-- An event is published. -/
theorem published {event : WorkflowEvent} (hid : event.runId = o.runId) :
    o.Tells e [.published event] (e.publish o.bus event) := by
  cases hbus : o.bus with
  | none =>
    exact
      { Tells.refl o e with
        journal := by simp [Engine.publish, happenings]
        feed := by simp [Engine.publish, deliveries]
        bus := by simp [hbus]
        found := by simp
        tagged := by simp [event?, hid] }
  | some b =>
    exact
      { Tells.refl o e with
        journal := by simp [Engine.publish, happenings]
        feed := by simp [Engine.publish, deliveries]
        bus := by simp [hbus, Engine.publish, Pool.get?_modify_self, publications]
        found := by simp
        tagged := by simp [event?, hid] }

end Tells

/-- The discipline of a streamed run. -/
def discipline (o : Outlet) : Discipline Engine Telling where
  allows := o.Tells
  nil := Tells.refl o
  append := Tells.append

end Outlet

end WorkflowEngine
