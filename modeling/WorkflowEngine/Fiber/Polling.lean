import WorkflowEngine.Fiber.Basic

/-!
# Polling

One turn of a fiber: it goes on as far as it can, on the shared state as it finds it.
-/

namespace WorkflowEngine

/-- How a fiber stands after a turn. -/
inductive Progress (σ α : Type) : Type 1 where
  | done (a : α) (s : σ)
  | waiting (p : Fiber σ α) (s : σ)
  | aborted (message : String) (s : σ)

namespace Fiber

def poll : Fiber σ α → σ → Progress σ α
  | done a, s => .done a s
  | act step next, s => let r := step s; (next r.1).poll r.2
  | wait due ready next, s =>
    match ready s with
    | some (b, s) => (next b).poll s
    | none => .waiting (.wait due ready next) s
  | race before after due body next, s =>
    if before s then (next none).poll s
    else match body.poll s with
      | .done b s => (next (some b)).poll s
      | .waiting body s =>
        if after s then (next none).poll s
        else .waiting (.race before after due body next) s
      | .aborted message s => .aborted message s
  | both left right next, s =>
    match left.poll s with
    | .aborted message s => .aborted message s
    | .done b s =>
      match right.poll s with
      | .aborted message s => .aborted message s
      | .done c s => (next b c).poll s
      | .waiting right s => .waiting (.both (.done b) right next) s
    | .waiting left s =>
      match right.poll s with
      | .aborted message s => .aborted message s
      | .done c s => .waiting (.both left (.done c) next) s
      | .waiting right s => .waiting (.both left right next) s
  | abort message, s => .aborted message s

def isDone : Fiber σ α → Bool
  | done _ => true
  | _ => false

/-- Whether a turn would bring the fiber further. -/
def canGoOn : Fiber σ α → σ → Bool
  | wait _ ready _, s => (ready s).isSome
  | race before after _ body _, s => before s || body.canGoOn s || after s
  | both left right _, s =>
    (left.isDone && right.isDone) || (!left.isDone && left.canGoOn s)
      || (!right.isDone && right.canGoOn s)
  | done _, _ | act _ _, _ | abort _, _ => true

/-- The earlier of two times. -/
def earlier : Option Nat → Option Nat → Option Nat
  | some a, some b => some (min a b)
  | some a, none => some a
  | none, b => b

/-- The first time at which a waiting fiber may go on by itself. -/
def due : Fiber σ α → Option Nat
  | wait time _ _ => time
  | race _ _ time body _ => earlier time body.due
  | both left right _ => earlier left.due right.due
  | done _ | act _ _ | abort _ => none

end Fiber

end WorkflowEngine
