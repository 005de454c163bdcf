import WorkflowEngine.Event.Basic

/-!
# The event bus

Every subscriber sees every event published after it subscribed. The bus keeps the latest events up
to its capacity; a subscriber that fell further behind learns how many it lost.
-/

namespace WorkflowEngine

structure EventBus where
  capacity : Nat
  /-- How many events were published so far. -/
  published : Nat := 0
  /-- The latest events, the oldest first. -/
  kept : List WorkflowEvent := []
  /-- How many of the published events each subscriber has behind it. -/
  subscribers : KeyMap Nat := ∅

namespace EventBus

def powerOfTwoFrom (n : Nat) : Nat → Nat → Nat
  | 0, p => p
  | steps + 1, p => if n ≤ p then p else powerOfTwoFrom n steps (2 * p)

/-- A bus of at least the given capacity, rounded up to a power of two. -/
def new (capacity : Nat) : EventBus := { capacity := powerOfTwoFrom capacity 64 1 }

/-- The most events that there is room for. -/
def maxCapacity : Nat := 0x10000000000

/-- A bus keeps at least one event and no more than there is room for. -/
def ofCapacity? (capacity : Nat) : Option EventBus :=
  if capacity = 0 ∨ maxCapacity < capacity then none else some (new capacity)

def publish (bus : EventBus) (event : WorkflowEvent) : EventBus :=
  let kept := bus.kept ++ [event]
  { bus with
    published := bus.published + 1
    kept := kept.drop (kept.length - bus.capacity) }

def subscribe (bus : EventBus) (name : String) : EventBus :=
  { bus with subscribers := bus.subscribers.insert name bus.published }

/-- Ends a subscription and tells whether there was one. -/
def unsubscribe (bus : EventBus) (name : String) : Bool × EventBus :=
  (bus.subscribers.contains name, { bus with subscribers := bus.subscribers.erase name })

inductive Received where
  | event (e : WorkflowEvent)
  | lagged (lost : Nat)
  | empty

/-- The next event of a subscriber. One who lost events is told so once and continues with the
oldest event kept. -/
def receive (bus : EventBus) (name : String) : Received × EventBus :=
  match bus.subscribers.get? name with
  | none => (.empty, bus)
  | some position =>
    let oldest := bus.published - bus.kept.length
    if position < oldest then
      (.lagged (oldest - position), { bus with subscribers := bus.subscribers.insert name oldest })
    else match bus.kept[position - oldest]? with
      | some e =>
        (.event e, { bus with subscribers := bus.subscribers.insert name (position + 1) })
      | none => (.empty, bus)

end EventBus

end WorkflowEngine
