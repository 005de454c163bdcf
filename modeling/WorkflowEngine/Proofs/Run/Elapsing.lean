import WorkflowEngine.Proofs.Fiber.Strides
import WorkflowEngine.Proofs.Run.Tasks

/-!
# Elapsing time

How a fiber gets on by the clock. Time passes only while the fiber cannot go on, and never past its next
due time, so that nothing is late. Main statement: a sequence gets on in its first part to its end and then
in the rest.
-/

namespace WorkflowEngine.Fiber

variable {α β : Type}

/-- Whether a fiber can go on at any time. -/
def isReady : {α : Type} → Fiber σ α → Bool
  | _, done _ | _, act _ _ | _, abort _ => true
  | _, wait _ _ _ => false
  | _, race _ _ _ body _ => body.isReady
  | _, both left right _ =>
    (left.isDone && right.isDone) || (!left.isDone && left.isReady)
      || (!right.isDone && right.isReady)

/-- The time at which a fiber goes on next, when it is not stopped. -/
def wakes (p : Fiber Engine α) (now : Nat) : Nat :=
  if p.isReady then now else max now (p.due.getD 0)

/-- What happens while a fiber stands still. -/
inductive Meanwhile (others : Engine → Engine → Prop) (p : Fiber Engine α) (e : Engine) :
    Engine → Prop
  | act {e' : Engine} (h : others e e') : Meanwhile others p e e'
  | time (ms : Nat) (hidle : p.isDone = true ∨ p.canGoOn e = false)
      (hdue : ∀ d, p.due = some d → e.now + ms ≤ d) :
      Meanwhile others p e { e with now := e.now + ms }

/-- A fiber gets on by steps of a kind, while others act and time passes by the clock. -/
inductive Elapses (goes : Fiber Engine α → Engine → Fiber Engine α → Engine → Prop)
    (others : Engine → Engine → Prop) :
    Fiber Engine α → Engine → Fiber Engine α → Engine → Prop
  | refl {p : Fiber Engine α} {e : Engine} : Elapses goes others p e p e
  | go {p p' q : Fiber Engine α} {e e' f : Engine} (h : goes p e p' e')
      (ht : Elapses goes others p' e' q f) : Elapses goes others p e q f
  | meanwhile {p q : Fiber Engine α} {e e' f : Engine} (h : Meanwhile others p e e')
      (ht : Elapses goes others p e' q f) : Elapses goes others p e q f

/-- A fiber takes a whole turn. -/
def TakesTurn (p : Fiber Engine α) (e : Engine) (p' : Fiber Engine α) (e' : Engine) : Prop :=
  Leaves (p.poll e) p' e'

theorem TakesTurn.of_done {p : Fiber Engine α} {e e' : Engine} {a : α}
    (h : p.poll e = .done a e') : TakesTurn p e (.done a) e' := by
  rw [TakesTurn, h]
  exact .done

theorem TakesTurn.of_waiting {p p' : Fiber Engine α} {e e' : Engine}
    (h : p.poll e = .waiting p' e') : TakesTurn p e p' e' := by
  rw [TakesTurn, h]
  exact .waiting

/-- A fiber by itself: nobody acts while it is in the middle of a turn. -/
abbrev Solo (others : Engine → Engine → Prop) :
    Fiber Engine α → Engine → Fiber Engine α → Engine → Prop :=
  Elapses TakesTurn others

/-- Fibers in a row, each of which takes whole turns. -/
abbrev InRow (others : Engine → Engine → Prop) :
    Fiber Engine α → Engine → Fiber Engine α → Engine → Prop :=
  Elapses Strides others

/-- Fibers that run one after another, each to its end. -/
inductive InOrder (others : Engine → Engine → Prop) :
    List (Fiber Engine α) → Engine → List α → Engine → Prop
  | nil {e : Engine} : InOrder others [] e [] e
  | cons {p : Fiber Engine α} {rest : List (Fiber Engine α)} {a : α} {as : List α}
      {e e' f : Engine} (h : Solo others p e (.done a) e') (ht : InOrder others rest e' as f) :
      InOrder others (p :: rest) e (a :: as) f

variable {goes : Fiber Engine α → Engine → Fiber Engine α → Engine → Prop}
  {others others' : Engine → Engine → Prop} {p p' q : Fiber Engine α} {e e' f : Engine}

theorem Meanwhile.mono (h : Meanwhile others p e e') (ho : ∀ e e', others e e' → others' e e') :
    Meanwhile others' p e e' := by
  cases h with
  | act h => exact .act (ho _ _ h)
  | time ms hidle hdue => exact .time ms hidle hdue

namespace Elapses

theorem trans (h : Elapses goes others p e p' e') (h' : Elapses goes others p' e' q f) :
    Elapses goes others p e q f := by
  induction h with
  | refl => exact h'
  | go hg _ ih => exact .go hg (ih h')
  | meanwhile hm _ ih => exact .meanwhile hm (ih h')

theorem mono (h : Elapses goes others p e q f) (ho : ∀ e e', others e e' → others' e e') :
    Elapses goes others' p e q f := by
  induction h with
  | refl => exact .refl
  | go hg _ ih => exact .go hg ih
  | meanwhile hm _ ih => exact .meanwhile (hm.mono ho) ih

theorem of_walks (h : Walks p e q f) : InRow others p e q f := by
  induction h with
  | refl => exact .refl
  | step hs _ ih => exact .go hs ih

/-- Fibers in a row can take their turns together. -/
theorem inRow (h : Solo others p e q f) : InRow others p e q f := by
  induction h with
  | refl => exact .refl
  | go ht _ ih => exact (of_walks (walks_of_leaves ht)).trans ih
  | meanwhile hm _ ih => exact .meanwhile hm ih

end Elapses

/-- A lively fiber stays lively on its way. -/
theorem Lively.of_inRow {S : Support Engine} (h : Lively S p) (hr : InRow others p e q f) :
    Lively S q := by
  induction hr with
  | refl => exact h
  | go hs _ ih => exact ih (Lively.of_strides hs h)
  | meanwhile _ _ ih => exact ih h

/-! ## Sequences -/

theorem canGoOn_bind {k : α → Fiber Engine β} (h : p.isDone = false) :
    (p.bind k).canGoOn e = p.canGoOn e := by
  cases p with
  | done a => cases h
  | act | wait | race | both | abort => rfl

theorem due_bind {k : α → Fiber Engine β} (h : p.isDone = false) : (p.bind k).due = p.due := by
  cases p with
  | done a => cases h
  | act | wait | race | both | abort => rfl

theorem isDone_bind {k : α → Fiber Engine β} (h : p.isDone = false) :
    (p.bind k).isDone = false := by
  cases p with
  | done a => cases h
  | act | wait | race | both | abort => rfl

theorem meanwhile_of_bind {k : α → Fiber Engine β} (h : p.isDone = false)
    (hm : Meanwhile others (p.bind k) e e') : Meanwhile others p e e' := by
  cases hm with
  | act h => exact .act h
  | time ms hidle hdue =>
    rw [isDone_bind h, canGoOn_bind h] at hidle
    rw [due_bind h] at hdue
    exact .time ms (.inr (by simpa using hidle)) hdue

/-- A sequence that came to its end did so in its first part before the rest. -/
theorem inRow_of_bind {k : α → Fiber Engine β} {b : β}
    (h : InRow others (p.bind k) e (.done b) f) :
    ∃ a e', InRow others p e (.done a) e' ∧ InRow others (k a) e' (.done b) f := by
  generalize hs : p.bind k = s at h
  generalize ht : (done b : Fiber Engine β) = t at h
  induction h generalizing p with
  | refl =>
    subst hs
    cases p with
    | done a => exact ⟨a, _, .refl, .refl⟩
    | act | wait | race | both | abort => cases ht
  | go hg hrest ih =>
    subst hs ht
    rcases strides_of_bind hg with ⟨p', hp, rfl⟩ | ⟨a, rfl, hk⟩
    · obtain ⟨a, u, hp', hk⟩ := ih rfl rfl
      exact ⟨a, u, .go hp hp', hk⟩
    · exact ⟨a, _, .refl, .go hk hrest⟩
  | meanwhile hm hrest ih =>
    subst hs ht
    cases hdone : p.isDone with
    | false =>
      obtain ⟨a, u, hp', hk⟩ := ih rfl rfl
      exact ⟨a, u, .meanwhile (meanwhile_of_bind hdone hm) hp', hk⟩
    | true =>
      cases p with
      | done a => exact ⟨a, _, .refl, .meanwhile hm hrest⟩
      | act | wait | race | both | abort => cases hdone

end WorkflowEngine.Fiber
