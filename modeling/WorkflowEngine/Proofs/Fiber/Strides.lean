import WorkflowEngine.Proofs.Fiber.Turns

/-!
# Strides

What fibers in a row do when each of them takes whole turns. A turn of the row gives all of them a turn
from left to right; here they take theirs in any order, and others may act on the shared state between any
two of them. Main statement: every turn of a row is made of such strides.
-/

namespace WorkflowEngine.Fiber

variable {σ α β γ : Type}

/-- Whether a fiber runs two others side by side. -/
def isSplit : Fiber σ α → Bool
  | both _ _ _ => true
  | _ => false

/-- One fiber of a row goes on. The left one of two takes a whole turn, for nobody else acts before it
waits; the right one is the rest of the row. Outside of a row a stride is a move. -/
inductive Strides : {α : Type} → Fiber σ α → σ → Fiber σ α → σ → Prop
  | move {α : Type} {p p' : Fiber σ α} {s s' : σ} (hp : p.isSplit = false) (h : Moves p s p' s') :
      Strides p s p' s'
  | left {α β γ : Type} {left left' : Fiber σ β} {right : Fiber σ γ} {next : β → γ → Fiber σ α}
      {s s' : σ} (h : Leaves (left.poll s) left' s') :
      Strides (.both left right next) s (.both left' right next) s'
  | right {α β γ : Type} {left : Fiber σ β} {right right' : Fiber σ γ} {next : β → γ → Fiber σ α}
      {s s' : σ} (h : Strides right s right' s') :
      Strides (.both left right next) s (.both left right' next) s'
  | join {α β γ : Type} {b : β} {c : γ} {next : β → γ → Fiber σ α} {s : σ} :
      Strides (.both (.done b) (.done c) next) s (next b c) s

/-- Some strides, one after another. -/
inductive Walks : Fiber σ α → σ → Fiber σ α → σ → Prop
  | refl {p : Fiber σ α} {s : σ} : Walks p s p s
  | step {p p' q : Fiber σ α} {s s' t : σ} (h : Strides p s p' s') (hw : Walks p' s' q t) :
      Walks p s q t

namespace Walks

theorem trans {p p' q : Fiber σ α} {s s' t : σ} (h : Walks p s p' s') (h' : Walks p' s' q t) :
    Walks p s q t := by
  induction h with
  | refl => exact h'
  | step hs _ ih => exact .step hs (ih h')

theorem right {l : Fiber σ β} {r r' : Fiber σ γ} {next : β → γ → Fiber σ α} {s s' : σ}
    (h : Walks r s r' s') : Walks (.both l r next) s (.both l r' next) s' := by
  induction h with
  | refl => exact refl
  | step hs _ ih => exact .step (.right hs) ih

end Walks

/-- Every turn of a row is made of strides. -/
theorem walks_of_leaves {p q : Fiber σ α} {s t : σ} (h : Leaves (p.poll s) q t) :
    Walks p s q t := by
  induction p generalizing s t with
  | done a =>
    cases h
    exact .refl
  | act step next ih => exact .step (.move rfl .act) (ih _ h)
  | wait due ready next ih =>
    rw [poll] at h
    split at h
    · rename_i hr
      exact .step (.move rfl (.wait hr)) (ih _ h)
    · cases h
      exact .refl
  | race before after due body next _ ih =>
    rw [poll] at h
    split at h
    · rename_i hb
      exact .step (.move rfl (.stop hb)) (ih none h)
    · rename_i hb
      rw [Bool.not_eq_true] at hb
      split at h
      · rename_i hp
        exact .step (.move rfl (.ended hb hp)) (ih _ h)
      · rename_i hp
        split at h
        · rename_i ha
          exact .step (.move rfl (.late hb hp ha)) (ih none h)
        · rename_i ha
          rw [Bool.not_eq_true] at ha
          cases h
          exact .step (.move rfl (.under hb hp ha)) .refl
      · cases h
  | both left right next _ ihr ih =>
    rw [poll] at h
    split at h
    · cases h
    · rename_i b u hl
      have hleft : Leaves (left.poll s) (.done b) u := hl ▸ .done
      split at h
      · cases h
      · rename_i hr
        exact .step (.left hleft) ((ihr (hr ▸ .done)).right.trans (.step .join (ih _ _ h)))
      · rename_i hr
        cases h
        exact .step (.left hleft) (ihr (hr ▸ .waiting)).right
    · rename_i left' u hl
      have hleft : Leaves (left.poll s) left' u := hl ▸ .waiting
      split at h
      · cases h
      · rename_i hr
        cases h
        exact .step (.left hleft) (ihr (hr ▸ .done)).right
      · rename_i hr
        cases h
        exact .step (.left hleft) (ihr (hr ▸ .waiting)).right
  | abort message => cases h

/-- A stride of a lively fiber leaves a lively one. -/
theorem Lively.of_strides {S : Support σ} {p p' : Fiber σ α} {s s' : σ} (h : Strides p s p' s')
    (hp : Lively S p) : Lively S p' := by
  induction h with
  | move _ hm => exact Lively.of_moves hm hp
  | @left _ _ _ left left' right next s s' ht =>
    obtain ⟨l, t, hl, hlively⟩ := hp.1.poll s
    generalize left.poll s = q at ht hl
    cases ht <;> cases hl <;> exact ⟨hlively, hp.2⟩
  | right _ ih => exact ⟨hp.1, ih hp.2.1, hp.2.2⟩
  | join => exact hp.2.2 _ _

/-- A stride of a sequence is one of its first part, or of the rest when that part is done. -/
theorem strides_of_bind {p : Fiber σ α} {k : α → Fiber σ β} {q : Fiber σ β} {s s' : σ}
    (h : Strides (p.bind k) s q s') :
    (∃ p', Strides p s p' s' ∧ q = p'.bind k) ∨ ∃ a, p = .done a ∧ Strides (k a) s q s' := by
  cases p with
  | done a => exact .inr ⟨a, rfl, h⟩
  | both left right next =>
    cases h with
    | move hp => cases hp
    | left h => exact .inl ⟨_, .left h, rfl⟩
    | right h => exact .inl ⟨_, .right h, rfl⟩
    | join => exact .inl ⟨_, .join, rfl⟩
  | act step next | wait due ready next | race before after due body next | abort message =>
    cases h with
    | move _ hm =>
      rcases moves_of_bind hm with ⟨p', hm', rfl⟩ | ⟨a, ha, -⟩
      · exact .inl ⟨p', .move rfl hm', rfl⟩
      · cases ha

end WorkflowEngine.Fiber
