/-!
# Fibers

A fiber acts on a state that it shares with others. Between two waits it runs alone; while it
waits, others may act and time may pass.
-/

namespace WorkflowEngine

/-- A fiber over a shared state `σ` that ends with a value or is aborted. -/
inductive Fiber (σ : Type) : Type → Type 1 where
  | done {α : Type} (a : α) : Fiber σ α
  | act {α β : Type} (step : σ → β × σ) (next : β → Fiber σ α) : Fiber σ α
  /-- Waits until `ready` gives a result. With a `due` time it does so then at the latest. -/
  | wait {α β : Type} (due : Option Nat) (ready : σ → Option (β × σ)) (next : β → Fiber σ α) :
      Fiber σ α
  /-- Runs `body` unless it is stopped: `before` stops it before it goes on, `after` when it went on
  and still waits. -/
  | race {α β : Type} (before after : σ → Bool) (due : Option Nat) (body : Fiber σ β)
      (next : Option β → Fiber σ α) : Fiber σ α
  /-- Runs two fibers side by side until both have ended. Of two that can go on, the left one
  does so first. -/
  | both {α β γ : Type} (left : Fiber σ β) (right : Fiber σ γ) (next : β → γ → Fiber σ α) :
      Fiber σ α
  | abort {α : Type} (message : String) : Fiber σ α

namespace Fiber

def bind : Fiber σ α → (α → Fiber σ β) → Fiber σ β
  | done a, k => k a
  | act step next, k => .act step fun b => (next b).bind k
  | wait due ready next, k => .wait due ready fun b => (next b).bind k
  | race before after due body next, k => .race before after due body fun b => (next b).bind k
  | both left right next, k => .both left right fun b c => (next b c).bind k
  | abort message, _ => .abort message

instance : Monad (Fiber σ) where
  pure := done
  bind := bind

/-- Acts on the shared state. -/
def update (step : σ → α × σ) : Fiber σ α := act step done

def modify (f : σ → σ) : Fiber σ Unit := update fun s => ((), f s)

/-- Looks at the shared state. -/
def look (f : σ → α) : Fiber σ α := update fun s => (f s, s)

/-- Waits for a result. -/
def await (due : Option Nat) (ready : σ → Option (α × σ)) : Fiber σ α := wait due ready done

/-- Runs a fiber until it ends or a condition holds, which is looked at first. -/
def cancellable (stop : σ → Bool) (body : Fiber σ α) : Fiber σ (Option α) :=
  race stop (fun _ => false) none body done

/-- Runs a fiber until it ends or a condition holds at or after a time. A fiber that ends at
the time still counts. -/
def within (due : Nat) (expired : σ → Bool) (body : Fiber σ α) : Fiber σ (Option α) :=
  race (fun _ => false) expired (some due) body done

/-- Runs fibers side by side until all have ended. -/
def all : List (Fiber σ α) → Fiber σ (List α)
  | [] => done []
  | p :: rest => both p (all rest) fun a as => done (a :: as)

end Fiber

end WorkflowEngine
