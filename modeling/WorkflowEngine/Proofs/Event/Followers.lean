import WorkflowEngine.Proofs.Event.Tales
import WorkflowEngine.Proofs.Event.Ways
import WorkflowEngine.Proofs.Run.Liveliness

/-!
# Followers of a run

A run is followed by the reader of its feed and by a subscriber of its bus, each at its own pace, while
the run goes on and others act. Main statement: what the reader has read and what waits for it is what
the run has delivered; what a subscriber who lost nothing has heard and what is kept for it is, as far
as this run goes, what the run has published.
-/

namespace WorkflowEngine

open Telling

namespace EventBus

/-- A subscriber that has received everything so far. -/
structure UpToDate (bus : EventBus) (name : String) : Prop where
  position : bus.subscribers.get? name = some bus.published
  kept : bus.kept.length ≤ bus.published

/-- A subscriber for whom everything is kept that it has not received. -/
def KeepsUp (bus : EventBus) (name : String) : Prop :=
  ∃ position, bus.subscribers.get? name = some position ∧
    bus.published - bus.kept.length ≤ position

/-- The events kept that a subscriber has not received. -/
def unheard (bus : EventBus) (name : String) : List WorkflowEvent :=
  match bus.subscribers.get? name with
  | some position => bus.kept.drop (position - (bus.published - bus.kept.length))
  | none => []

/-- How a subscriber stands after events were sent and some of them heard, since it was up to date. -/
structure Heard (first : EventBus) (name : String) (bus : EventBus)
    (sent heard : List WorkflowEvent) : Prop where
  early : first.kept.length ≤ first.published
  published : bus.published = first.published + sent.length
  kept : bus.kept <:+ first.kept ++ sent
  position : bus.subscribers.get? name = some (first.published + heard.length)
  heard : heard <+: sent

namespace Heard

variable {first bus bus' : EventBus} {name : String} {sent heard : List WorkflowEvent}
  {event : WorkflowEvent}

theorem begin (h : first.UpToDate name) : Heard first name first [] [] :=
  ⟨h.kept, rfl, by simp, h.position, by simp⟩

theorem publish (h : Heard first name bus sent heard) (event : WorkflowEvent) :
    Heard first name (bus.publish event) (sent ++ [event]) heard where
  early := h.early
  published := by simp [EventBus.publish, h.published, Nat.add_assoc]
  kept := by
    rw [← List.append_assoc]
    obtain ⟨l, hl⟩ := h.kept
    exact (List.drop_suffix _ _).trans ⟨l, by rw [← hl, List.append_assoc]⟩
  position := h.position
  heard := h.heard.trans (List.prefix_append _ _)

theorem publishAll (h : Heard first name bus sent heard) (events : List WorkflowEvent) :
    Heard first name (events.foldl EventBus.publish bus) (sent ++ events) heard := by
  induction events generalizing bus sent with
  | nil => simpa using h
  | cons event events ih => simpa using ih (h.publish event)

/-- The position of a subscriber is kept whatever the others subscribe to. -/
theorem subscribers (h : Heard first name bus sent heard) {subscribers : KeyMap Nat}
    (hs : subscribers.get? name = bus.subscribers.get? name) :
    Heard first name { bus with subscribers } sent heard :=
  { h with position := hs.trans h.position }

/-- Where the next event of a subscriber stands among the events kept. -/
private theorem drop_kept (h : Heard first name bus sent heard)
    (hk : bus.published - bus.kept.length ≤ first.published + heard.length) :
    bus.kept.drop (first.published + heard.length - (bus.published - bus.kept.length)) =
      sent.drop heard.length := by
  obtain ⟨l, hl⟩ := h.kept
  have hlength := congrArg List.length hl
  simp only [List.length_append] at hlength
  have hpublished := h.published
  have hearly := h.early
  have hsent : (first.kept ++ sent).drop (first.kept.length + heard.length) =
      sent.drop heard.length := by
    rw [List.drop_length_add_append]
  rw [← hsent, ← hl, show first.kept.length + heard.length = l.length +
    (first.published + heard.length - (bus.published - bus.kept.length)) by omega,
    List.drop_length_add_append]

/-- A subscriber receives the events in the order in which they were sent. -/
theorem receive (h : Heard first name bus sent heard)
    (hr : bus.receive name = (.event event, bus')) :
    Heard first name bus' sent (heard ++ [event]) := by
  unfold EventBus.receive at hr
  rw [h.position] at hr
  dsimp only at hr
  split at hr
  · cases hr
  · rename_i hk
    have hdrop := drop_kept h (Nat.le_of_not_lt hk)
    split at hr
    · rename_i e he
      cases hr
      have hnext : sent[heard.length]? = some event := by
        rw [List.getElem?_eq_some_iff] at he
        obtain ⟨hlt, he⟩ := he
        have hcons := List.drop_eq_getElem_cons hlt
        rw [hdrop, he] at hcons
        rw [← Nat.add_zero heard.length, ← List.getElem?_drop, hcons]
        rfl
      exact
        { h with
          position := by simp [KeyMap.get?_insert, Nat.add_assoc]
          heard := by
            obtain ⟨rest, rfl⟩ := h.heard
            rw [List.getElem?_append_right (Nat.le_refl _), Nat.sub_self] at hnext
            cases rest with
            | nil => cases hnext
            | cons e rest =>
              cases hnext
              exact ⟨rest, by simp⟩ }
    · cases hr

/-- A subscriber who lost nothing has heard what was sent, or it is kept for it. -/
theorem complete (h : Heard first name bus sent heard) (hk : bus.KeepsUp name) :
    heard ++ bus.unheard name = sent := by
  obtain ⟨position, hp, hk⟩ := hk
  obtain rfl : first.published + heard.length = position :=
    Option.some.inj (h.position.symm.trans hp)
  unfold unheard
  rw [h.position]
  dsimp only
  rw [drop_kept h hk]
  obtain ⟨rest, rfl⟩ := h.heard
  simp

end Heard

end EventBus

/-- What others may do beside a run that is followed. They leave its journal and its feed as they are and
do not take its cancellation back; on its bus they publish events of other runs and let the
subscription be. -/
structure Outlet.Bystanding (o : Outlet) (name : String) (e e' : Engine) : Prop where
  journal : e'.journal.of o.runId = e.journal.of o.runId
  feed : e'.feeds.get? o.feed = e.feeds.get? o.feed
  cancelled : e.isCancelled o.token → e'.isCancelled o.token
  bus : ∀ b, o.bus = some b → ∀ bus, e.buses.get? b = some bus →
    ∃ (events : List WorkflowEvent) (subscribers : KeyMap Nat),
    e'.buses.get? b = some { events.foldl EventBus.publish bus with subscribers } ∧
      subscribers.get? name = bus.subscribers.get? name ∧ ∀ event ∈ events, event.runId ≠ o.runId

/-- A run goes on, the reader of its feed reads, a subscriber of its bus hears, and others act. -/
inductive Followed {α : Type} (o : Outlet) (name : String) (p : Fiber Engine α) (e : Engine) :
    Fiber Engine α → Engine → List WorkflowEvent → List WorkflowEvent → Prop
  | begin : Followed o name p e p e [] []
  | move {p' p'' : Fiber Engine α} {e' e'' : Engine} {read heard : List WorkflowEvent}
      (h : Followed o name p e p' e' read heard) (hm : Fiber.Moves p' e' p'' e'') :
      Followed o name p e p'' e'' read heard
  | read {p' : Fiber Engine α} {e' e'' : Engine} {read heard : List WorkflowEvent}
      {event : WorkflowEvent} (h : Followed o name p e p' e' read heard)
      (ht : e'.takeEvent? o.feed = some (event, e'')) :
      Followed o name p e p' e'' (read ++ [event]) heard
  | hear {p' : Fiber Engine α} {e' : Engine} {read heard : List WorkflowEvent}
      {event : WorkflowEvent} {b : Ref EventBus} {bus : EventBus}
      (h : Followed o name p e p' e' read heard) (hb : o.bus = some b)
      (hr : (e'.buses.get b).receive name = (.event event, bus)) :
      Followed o name p e p' { e' with buses := e'.buses.set b bus } read (heard ++ [event])
  | other {p' : Fiber Engine α} {e' e'' : Engine} {read heard : List WorkflowEvent}
      (h : Followed o name p e p' e' read heard) (ho : o.Bystanding name e' e'') :
      Followed o name p e p' e'' read heard

/-- How those who follow a run stand when it has told something. -/
structure Following (o : Outlet) (name : String) (first e : Engine) (t : List Telling)
    (read heard : List WorkflowEvent) : Prop where
  journal : e.journal.of o.runId = first.journal.of o.runId ++ happenings t
  feed : ∃ capacity queue, first.feeds.get? o.feed = some { capacity } ∧
    e.feeds.get? o.feed = some { capacity, queue } ∧ read ++ queue = deliveries t
  bus : ∀ b, o.bus = some b → ∃ before bus sent, first.buses.get? b = some before ∧
    e.buses.get? b = some bus ∧ before.Heard name bus sent heard ∧
      sent.filter (fun event => event.runId = o.runId) = publications t
  found : .cancelled ∈ t → e.isCancelled o.token

namespace Following

variable {o : Outlet} {name : String} {first e e' : Engine} {t u : List Telling}
  {read heard : List WorkflowEvent} {event : WorkflowEvent}

theorem begin {capacity : Nat} (hf : first.feeds.get? o.feed = some { capacity })
    (hb : ∀ b, o.bus = some b → ∃ bus, first.buses.get? b = some bus ∧ bus.UpToDate name) :
    Following o name first first [] [] [] where
  journal := by simp [happenings]
  feed := ⟨_, _, hf, hf, rfl⟩
  bus := fun b h => by
    obtain ⟨bus, hget, hbus⟩ := hb b h
    exact ⟨bus, bus, [], hget, hget, .begin hbus, rfl⟩
  found := by simp

/-- The run tells something. -/
theorem tells (h : Following o name first e t read heard) (ht : o.Tells e u e') :
    Following o name first e' (t ++ u) read heard where
  journal := by rw [ht.journal, h.journal, happenings_append, List.append_assoc]
  feed := by
    obtain ⟨capacity, queue, hfirst, hget, hf⟩ := h.feed
    refine ⟨capacity, queue ++ deliveries u, hfirst, ?_, by simp [← hf]⟩
    rw [ht.feed, hget]
    rfl
  bus := fun b hb => by
    obtain ⟨before, bus, sent, hbefore, hget, hheard, hsent⟩ := h.bus b hb
    refine ⟨before, _, _, hbefore, by rw [ht.bus b hb, hget]; rfl,
      hheard.publishAll (publications u), ?_⟩
    rw [List.filter_append, hsent, publications_append, List.append_cancel_left_eq,
      List.filter_eq_self]
    intro event he
    obtain ⟨a, ha, hae⟩ := Way.mem_events (w := .bus) he
    exact decide_eq_true (ht.tagged a ha event hae)
  found := fun hc => (List.mem_append.1 hc).elim (fun hc => ht.lasts (h.found hc)) ht.found

/-- The reader takes an event. -/
theorem takes (h : Following o name first e t read heard)
    (ht : e.takeEvent? o.feed = some (event, e')) :
    Following o name first e' t (read ++ [event]) heard := by
  obtain ⟨capacity, queue, hfirst, hget, hf⟩ := h.feed
  unfold Engine.takeEvent? at ht
  rw [Pool.get_of_get? hget] at ht
  split at ht
  · cases ht
  · rename_i next rest hqueue
    obtain rfl : queue = next :: rest := hqueue
    cases ht
    refine { h with feed := ⟨capacity, rest, hfirst, ?_, by simpa using hf⟩ }
    rw [Pool.get?_modify_self, hget]
    rfl

/-- The subscriber receives an event. -/
theorem hears (h : Following o name first e t read heard) {b : Ref EventBus} {bus : EventBus}
    (hb : o.bus = some b) (hr : (e.buses.get b).receive name = (.event event, bus)) :
    Following o name first { e with buses := e.buses.set b bus } t read (heard ++ [event]) := by
  refine { h with bus := fun b' hb' => ?_ }
  obtain rfl : b = b' := Option.some.inj (hb.symm.trans hb')
  obtain ⟨before, bus', sent, hbefore, hget, hheard, hsent⟩ := h.bus b hb
  rw [Pool.get_of_get? hget] at hr
  have hin : b.index < e.buses.items.length := (List.getElem?_eq_some_iff.1 hget).1
  exact ⟨before, bus, sent, hbefore, Pool.get?_set_self hin bus, hheard.receive hr, hsent⟩

/-- Others act. -/
theorem others (h : Following o name first e t read heard) (ho : o.Bystanding name e e') :
    Following o name first e' t read heard where
  journal := ho.journal.trans h.journal
  feed := by
    rw [ho.feed]
    exact h.feed
  bus := fun b hb => by
    obtain ⟨before, bus, sent, hbefore, hget, hheard, hsent⟩ := h.bus b hb
    obtain ⟨events, subscribers, hget', hname, hforeign⟩ := ho.bus b hb bus hget
    have hkept (events : List WorkflowEvent) (bus : EventBus) :
        (events.foldl EventBus.publish bus).subscribers = bus.subscribers := by
      induction events generalizing bus with
      | nil => rfl
      | cons event events ih => exact ih _
    refine ⟨before, _, sent ++ events, hbefore, hget',
      (hheard.publishAll events).subscribers (by rw [hname, hkept]), ?_⟩
    rw [List.filter_append, hsent, List.filter_eq_nil_iff.2, List.append_nil]
    exact fun event he => by simpa using hforeign event he
  found := fun hc => ho.cancelled (h.found hc)

end Following

/-- Those who follow a fiber that obeys an account have what it told, and it goes on obeying. -/
theorem Followed.following {α : Type} {o : Outlet} {name : String} {p p' : Fiber Engine α}
    {A : Account Telling α} {first e : Engine} {read heard : List WorkflowEvent}
    (h : Followed o name p first p' e read heard) (hp : Fiber.Obeys o.discipline p A)
    (hfirst : Following o name first first [] [] []) :
    ∃ t, Following o name first e t read heard ∧ Fiber.Obeys o.discipline p' (A.after t) := by
  induction h with
  | begin => exact ⟨[], hfirst, hp⟩
  | move _ hm ih =>
    obtain ⟨t, ht, hp⟩ := ih
    obtain ⟨u, hu, hp⟩ := hp.of_moves hm
    exact ⟨t ++ u, ht.tells hu, by simpa using hp⟩
  | read _ hr ih =>
    obtain ⟨t, ht, hp⟩ := ih
    exact ⟨t, ht.takes hr, hp⟩
  | hear _ hb hr ih =>
    obtain ⟨t, ht, hp⟩ := ih
    exact ⟨t, ht.hears hb hr, hp⟩
  | other _ ho ih =>
    obtain ⟨t, ht, hp⟩ := ih
    exact ⟨t, ht.others ho, hp⟩

/-! ## To the end -/

namespace Followed

variable {α : Type} {o : Outlet} {name : String} {p p' p'' : Fiber Engine α}
  {A : Account Telling α} {first e e' : Engine} {read heard : List WorkflowEvent}

theorem evolves (h : Followed o name p first p' e read heard)
    (he : Fiber.Evolves (fun _ _ => False) p' e p'' e') :
    Followed o name p first p'' e' read heard := by
  induction he with
  | refl => exact h
  | move _ hm ih => exact ih.move hm
  | other _ ho => exact ho.elim

/-- Time that passes is none of the run's doing. -/
private theorem reading (h : Followed o name p first p' e read heard)
    (ha : Reading o.feed e e') : ∃ more, Followed o name p first p' e' (read ++ more) heard := by
  induction ha with
  | refl => exact ⟨[], by simpa using h⟩
  | read _ ht ih =>
    obtain ⟨more, h⟩ := ih
    exact ⟨_, List.append_assoc .. ▸ h.read ht⟩
  | wait _ ms ih =>
    obtain ⟨more, h⟩ := ih
    exact ⟨more, h.other ⟨rfl, rfl, fun hc => hc, fun b _ bus hb => ⟨[], _, hb, rfl, by simp⟩⟩⟩

private theorem lively {S : Support Engine} (h : Followed o name p first p' e read heard)
    (hp : Fiber.Lively S p) : Fiber.Lively S p' := by
  induction h with
  | begin => exact hp
  | move _ hm ih => exact ih.of_moves hm
  | read _ _ ih | hear _ _ _ ih | other _ _ ih => exact ih

/-- Wherever a run stands, its reader can read on to its end. -/
theorem finishes (h : Followed o name p first p' e read heard) (hp : o.Obeys p A)
    (hfirst : Following o name first first [] [] []) (hl : Fiber.Lively (readership o.feed) p)
    (hroom : (readership o.feed).sound first) :
    ∃ a e' more, Followed o name p first (.done a) e' (read ++ more) heard := by
  induction p' using Fiber.wellFounded_turn.induction generalizing e read with
  | h p' ih =>
    cases hdone : p'.isDone with
    | true =>
      cases p' with
      | done a => exact ⟨a, e, [], by simpa using h⟩
      | act | wait | race | both | abort => cases hdone
    | false =>
      obtain ⟨t, ht, -⟩ := h.following hp hfirst
      have hsound : (readership o.feed).sound e := by
        obtain ⟨capacity, queue, hbefore, hget, -⟩ := ht.feed
        obtain ⟨f, hf, hcapacity⟩ := hroom
        rw [hbefore] at hf
        cases hf
        exact ⟨_, hget, hcapacity⟩
      have hlively := h.lively hl
      -- The reader reads on until a turn brings the run further.
      obtain ⟨e₁, he₁, hgo⟩ := hlively.canGoOn hsound
      obtain ⟨more, h₁⟩ := h.reading he₁
      obtain ⟨q, e₂, hleaves, -⟩ := hlively.poll e₁
      obtain ⟨a, e', later, h₂⟩ := ih q ⟨e₁, e₂, by simp [hdone, hgo], hleaves⟩
        (h₁.evolves (Fiber.evolves_of_leaves hleaves))
      exact ⟨a, e', more ++ later, by simpa using h₂⟩

end Followed

/-- Those who followed a run to its end, when it is not cancelled by then, have all that it told. -/
theorem Followed.whole {α : Type} {o : Outlet} {name : String} {p : Fiber Engine α}
    {A : Account Telling α} {first e : Engine} {read heard : List WorkflowEvent} {a : α}
    (h : Followed o name p first (.done a) e read heard) (hp : o.Obeys p A)
    (hfirst : Following o name first first [] [] []) (hc : e.isCancelled o.token = false) :
    ∃ t, A t (some a) ∧ Following o name first e t read heard := by
  obtain ⟨t, ht, hdone⟩ := h.following hp hfirst
  rcases (Account.after_nil_apply _ _ _).1 hdone.now with hfound | ⟨q, hq, hr⟩
  · rw [ht.found hfound] at hc
    cases hc
  · obtain rfl := hr a rfl
    exact ⟨t, hq, ht⟩

end WorkflowEngine
