import WorkflowEngine.Proofs.Event.Tellings

/-!
# Ways to follow a run

The events of a run come by its bus and by its feed. On the bus they come as soon as they are told; the
feed may miss those that were stopped while they waited for room. Main statement: where every event
that is published is delivered next, but for contents of some steps, the feed misses nothing but these.
-/

namespace WorkflowEngine

namespace Telling

/-- The two ways to follow a run. -/
inductive Way where
  | bus
  | feed

/-- The events that come by a way. -/
def Way.events : Way → List Telling → List WorkflowEvent
  | bus => publications
  | feed => deliveries

namespace Way

@[simp] theorem events_nil (w : Way) : w.events [] = [] := by cases w <;> rfl

@[simp] theorem events_append (w : Way) (t u : List Telling) :
    w.events (t ++ u) = w.events t ++ w.events u := by
  cases w <;> simp [events]

@[simp] theorem events_pair (w : Way) (event : WorkflowEvent) :
    w.events [.published event, .delivered event] = [event] := by
  cases w <;> rfl

theorem mem_events {w : Way} {event : WorkflowEvent} {t : List Telling} (h : event ∈ w.events t) :
    ∃ a ∈ t, a.event? = some event := by
  induction t with
  | nil => simp at h
  | cons a t ih =>
    rw [show a :: t = [a] ++ t from rfl, events_append, List.mem_append] at h
    rcases h with h | h
    · refine ⟨a, by simp, ?_⟩
      cases w <;> cases a <;> simp_all [events, publications, deliveries, event?]
    · obtain ⟨b, hb, he⟩ := ih h
      exact ⟨b, by simp [hb], he⟩

theorem interleave (w : Way) {l r t : List Telling} (h : Interleave l r t) :
    Interleave (w.events l) (w.events r) (w.events t) := by
  induction h with
  | nil => simpa using Interleave.nil
  | @left a l r t _ ih =>
    rw [show a :: l = [a] ++ l from rfl, show a :: t = [a] ++ t from rfl, events_append,
      events_append]
    exact ih.prepend_left _
  | @right a l r t _ ih =>
    rw [show a :: r = [a] ++ r from rfl, show a :: t = [a] ++ t from rfl, events_append,
      events_append]
    exact ih.prepend_right _

end Way

/-- Every event that is published is delivered next, but for contents of steps of a kind. -/
inductive Faithful (limited : String → Prop) : List Telling → Prop
  | nil : Faithful limited []
  | noted {h : Happening} {t : List Telling} (ht : Faithful limited t) :
      Faithful limited (.noted h :: t)
  | delivered {event : WorkflowEvent} {t : List Telling} (ht : Faithful limited t) :
      Faithful limited (.published event :: .delivered event :: t)
  | lost {event : WorkflowEvent} {name : String} {delta : Content} {t : List Telling}
      (hl : limited name) (hk : event.kind = .stepContentDelta name delta)
      (ht : Faithful limited t) : Faithful limited (.published event :: t)

namespace Faithful

variable {limited : String → Prop} {t u : List Telling}

theorem append (ht : Faithful limited t) (hu : Faithful limited u) : Faithful limited (t ++ u) := by
  induction ht with
  | nil => exact hu
  | noted _ ih => exact .noted ih
  | delivered _ ih => exact .delivered ih
  | lost hl hk _ ih => exact .lost hl hk ih

theorem mono {limited' : String → Prop} (h : Faithful limited t)
    (hl : ∀ x, limited x → limited' x) : Faithful limited' t := by
  induction h with
  | nil => exact .nil
  | noted _ ih => exact .noted ih
  | delivered _ ih => exact .delivered ih
  | lost hx hk _ ih => exact .lost (hl _ hx) hk ih

/-- What the feed misses of the bus are contents of these steps. -/
theorem missed (h : Faithful limited t) :
    ∃ lost, Interleave (deliveries t) lost (publications t) ∧
      ∀ event ∈ lost, ∃ name delta, limited name ∧ event.kind = .stepContentDelta name delta := by
  induction h with
  | nil => exact ⟨[], .nil, by simp⟩
  | noted _ ih => exact ih
  | delivered _ ih =>
    obtain ⟨lost, hi, hlost⟩ := ih
    exact ⟨lost, hi.left, hlost⟩
  | @lost event name delta t hl hk _ ih =>
    obtain ⟨lost, hi, hlost⟩ := ih
    exact ⟨event :: lost, hi.right, List.forall_mem_cons.2 ⟨⟨name, delta, hl, hk⟩, hlost⟩⟩

end Faithful

end Telling

end WorkflowEngine
