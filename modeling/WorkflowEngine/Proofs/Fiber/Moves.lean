import WorkflowEngine.Fiber.Polling

/-!
# Laws and moves of fibers

What a fiber may do in any order of its strands. A turn always lets the left one of two fibers go
on first; here either may, and others may act on the shared state between any two moves. Main
statement: every turn is made of such moves.
-/

/-! ## Sequencing

Sequencing is associative with `done` as its unit, and a turn of a sequence is a turn of its first
part, followed by the turn of the rest once that part is done.
-/

namespace WorkflowEngine.Fiber

variable {σ α β γ : Type}

@[simp] theorem bind_done (p : Fiber σ α) : p.bind done = p := by
  induction p with
  | done a => rfl
  | act step next ih => simp only [bind, ih]
  | wait due ready next ih => simp only [bind, ih]
  | race before after due body next _ ih => simp only [bind, ih]
  | both left right next _ _ ih => simp only [bind, ih]
  | abort message => rfl

theorem bind_assoc (p : Fiber σ α) (k : α → Fiber σ β) (l : β → Fiber σ γ) :
    (p.bind k).bind l = p.bind fun a => (k a).bind l := by
  induction p with
  | done a => rfl
  | act step next ih => simp only [bind, ih]
  | wait due ready next ih => simp only [bind, ih]
  | race before after due body next _ ih => simp only [bind, ih]
  | both left right next _ _ ih => simp only [bind, ih]
  | abort message => rfl

instance : LawfulMonad (Fiber σ) :=
  LawfulMonad.mk' (Fiber σ) (fun p => bind_done p) (fun _ _ => rfl) fun p k l => bind_assoc p k l

theorem poll_bind (p : Fiber σ α) (k : α → Fiber σ β) (s : σ) :
    (p.bind k).poll s = match p.poll s with
      | .done a s => (k a).poll s
      | .waiting p s => .waiting (p.bind k) s
      | .aborted message s => .aborted message s := by
  induction p generalizing s with
  | done a => rfl
  | act step next ih => simpa only [bind, poll] using ih _ _ _
  | wait due ready next ih =>
    simp only [bind, poll]
    cases ready s with
    | none => rfl
    | some r => exact ih _ _ _
  | race before after due body next _ ih =>
    simp only [bind, poll]
    split
    · exact ih _ _ _
    · cases body.poll s with
      | done b s => exact ih _ _ _
      | waiting body s =>
        dsimp only
        split
        · exact ih _ _ _
        · rfl
      | aborted message s => rfl
  | both left right next _ _ ih =>
    simp only [bind, poll]
    cases left.poll s with
    | aborted message s => rfl
    | done b s =>
      dsimp only
      cases right.poll s with
      | aborted message s => rfl
      | done c s => exact ih _ _ _ _
      | waiting right s => rfl
    | waiting left s =>
      dsimp only
      cases right.poll s <;> rfl
  | abort message => rfl

/-! ## Moves -/

/-- One strand of a fiber moves. Work that may be stopped takes a whole turn at once, for nobody
else acts before it waits. -/
inductive Moves : {α : Type} → Fiber σ α → σ → Fiber σ α → σ → Prop
  | act {α β : Type} {step : σ → β × σ} {next : β → Fiber σ α} {s : σ} :
      Moves (.act step next) s (next (step s).1) (step s).2
  | wait {α β : Type} {due : Option Nat} {ready : σ → Option (β × σ)} {next : β → Fiber σ α}
      {s s' : σ} {b : β} (h : ready s = some (b, s')) :
      Moves (.wait due ready next) s (next b) s'
  /-- The work is stopped before it goes on. -/
  | stop {α β : Type} {before after : σ → Bool} {due : Option Nat} {body : Fiber σ β}
      {next : Option β → Fiber σ α} {s : σ} (h : before s = true) :
      Moves (.race before after due body next) s (next none) s
  /-- The work goes on to its end. -/
  | ended {α β : Type} {before after : σ → Bool} {due : Option Nat} {body : Fiber σ β}
      {next : Option β → Fiber σ α} {s s' : σ} {b : β} (h : before s = false)
      (hp : body.poll s = .done b s') :
      Moves (.race before after due body next) s (next (some b)) s'
  /-- The work goes on and waits again. -/
  | under {α β : Type} {before after : σ → Bool} {due : Option Nat} {body body' : Fiber σ β}
      {next : Option β → Fiber σ α} {s s' : σ} (h : before s = false)
      (hp : body.poll s = .waiting body' s') (ha : after s' = false) :
      Moves (.race before after due body next) s (.race before after due body' next) s'
  /-- The work is stopped after it went on. -/
  | late {α β : Type} {before after : σ → Bool} {due : Option Nat} {body body' : Fiber σ β}
      {next : Option β → Fiber σ α} {s s' : σ} (h : before s = false)
      (hp : body.poll s = .waiting body' s') (ha : after s' = true) :
      Moves (.race before after due body next) s (next none) s'
  | left {α β γ : Type} {left left' : Fiber σ β} {right : Fiber σ γ} {next : β → γ → Fiber σ α}
      {s s' : σ} (h : Moves left s left' s') :
      Moves (.both left right next) s (.both left' right next) s'
  | right {α β γ : Type} {left : Fiber σ β} {right right' : Fiber σ γ} {next : β → γ → Fiber σ α}
      {s s' : σ} (h : Moves right s right' s') :
      Moves (.both left right next) s (.both left right' next) s'
  | join {α β γ : Type} {b : β} {c : γ} {next : β → γ → Fiber σ α} {s : σ} :
      Moves (.both (.done b) (.done c) next) s (next b c) s

/-- One strand of a fiber is aborted, and the fiber with it. -/
inductive Crashes : {α : Type} → Fiber σ α → σ → σ → Prop
  | abort {α : Type} {message : String} {s : σ} : Crashes (.abort message : Fiber σ α) s s
  | race {α β : Type} {before after : σ → Bool} {due : Option Nat} {body : Fiber σ β}
      {next : Option β → Fiber σ α} {s s' : σ} {message : String} (h : before s = false)
      (hp : body.poll s = .aborted message s') :
      Crashes (.race before after due body next) s s'
  | left {α β γ : Type} {left : Fiber σ β} {right : Fiber σ γ} {next : β → γ → Fiber σ α}
      {s s' : σ} (h : Crashes left s s') : Crashes (.both left right next) s s'
  | right {α β γ : Type} {left : Fiber σ β} {right : Fiber σ γ} {next : β → γ → Fiber σ α}
      {s s' : σ} (h : Crashes right s s') : Crashes (.both left right next) s s'

/-- A fiber evolves: its strands move in any order, and others act in between. -/
inductive Evolves (others : σ → σ → Prop) (p : Fiber σ α) (s : σ) : Fiber σ α → σ → Prop
  | refl : Evolves others p s p s
  | move {p' p'' : Fiber σ α} {s' s'' : σ} (h : Evolves others p s p' s')
      (hm : Moves p' s' p'' s'') : Evolves others p s p'' s''
  | other {p' : Fiber σ α} {s' s'' : σ} (h : Evolves others p s p' s') (ho : others s' s'') :
      Evolves others p s p' s''

variable {others : σ → σ → Prop}

namespace Evolves

theorem trans {p p' p'' : Fiber σ α} {s s' s'' : σ} (h : Evolves others p s p' s')
    (h' : Evolves others p' s' p'' s'') : Evolves others p s p'' s'' := by
  induction h' with
  | refl => exact h
  | move _ hm ih => exact ih.move hm
  | other _ ho ih => exact ih.other ho

theorem head {p p' p'' : Fiber σ α} {s s' s'' : σ} (hm : Moves p s p' s')
    (h : Evolves others p' s' p'' s'') : Evolves others p s p'' s'' :=
  (refl.move hm).trans h

theorem left {l l' : Fiber σ β} {r : Fiber σ γ} {next : β → γ → Fiber σ α} {s s' : σ}
    (h : Evolves others l s l' s') :
    Evolves others (.both l r next) s (.both l' r next) s' := by
  induction h with
  | refl => exact refl
  | move _ hm ih => exact ih.move (.left hm)
  | other _ ho ih => exact ih.other ho

theorem right {l : Fiber σ β} {r r' : Fiber σ γ} {next : β → γ → Fiber σ α} {s s' : σ}
    (h : Evolves others r s r' s') :
    Evolves others (.both l r next) s (.both l r' next) s' := by
  induction h with
  | refl => exact refl
  | move _ hm ih => exact ih.move (.right hm)
  | other _ ho ih => exact ih.other ho

end Evolves

/-- What the moves that make up a turn come to. -/
def Arrives (others : σ → σ → Prop) (p : Fiber σ α) (s : σ) : Progress σ α → Prop
  | .done a s' => Evolves others p s (.done a) s'
  | .waiting p' s' => Evolves others p s p' s'
  | .aborted _ s' => ∃ p' t, Evolves others p s p' t ∧ Crashes p' t s'

private theorem Arrives.head {p p' : Fiber σ α} {s s' : σ} {r : Progress σ α}
    (hm : Moves p s p' s') (h : Arrives others p' s' r) : Arrives others p s r := by
  cases r with
  | done a t => exact Evolves.head hm h
  | waiting q t => exact Evolves.head hm h
  | aborted message t =>
    obtain ⟨q, u, hq, hc⟩ := h
    exact ⟨q, u, .head hm hq, hc⟩

private theorem Arrives.after {p p' : Fiber σ α} {s s' : σ} {r : Progress σ α}
    (he : Evolves others p s p' s') (h : Arrives others p' s' r) : Arrives others p s r := by
  cases r with
  | done a t => exact he.trans h
  | waiting q t => exact he.trans h
  | aborted message t =>
    obtain ⟨q, u, hq, hc⟩ := h
    exact ⟨q, u, he.trans hq, hc⟩

/-- Every turn is made of moves. -/
theorem arrives_poll (p : Fiber σ α) (s : σ) : Arrives others p s (p.poll s) := by
  induction p generalizing s with
  | done a => exact .refl
  | act step next ih => exact Arrives.head .act (ih _ _)
  | wait due ready next ih =>
    rw [poll]
    cases h : ready s with
    | none => exact .refl
    | some r => exact Arrives.head (.wait h) (ih _ _)
  | race before after due body next _ ih =>
    rw [poll]
    cases hb : before s with
    | true => exact Arrives.head (.stop hb) (ih _ _)
    | false =>
      cases hp : body.poll s with
      | done b t => exact Arrives.head (.ended hb hp) (ih _ _)
      | waiting body' t =>
        cases ha : after t with
        | true => simpa [ha] using Arrives.head (.late hb hp ha) (ih none t)
        | false =>
          have hm : Evolves others (.race before after due body next) s _ t :=
            Evolves.refl.move (.under hb hp ha)
          simpa [ha, Arrives] using hm
      | aborted message t => exact ⟨_, _, .refl, .race hb hp⟩
  | both left right next ihl ihr ih =>
    rw [poll]
    have hl := ihl s
    cases hpl : left.poll s with
    | aborted message t =>
      rw [hpl] at hl
      obtain ⟨q, u, hq, hc⟩ := hl
      exact ⟨_, u, hq.left, .left hc⟩
    | done b t =>
      rw [hpl] at hl
      dsimp only
      have hr := ihr t
      cases hpr : right.poll t with
      | aborted message u =>
        rw [hpr] at hr
        obtain ⟨q, v, hq, hc⟩ := hr
        exact ⟨_, v, hl.left.trans hq.right, .right hc⟩
      | done c u =>
        rw [hpr] at hr
        exact Arrives.after ((hl.left.trans hr.right).move .join) (ih b c u)
      | waiting right' u =>
        rw [hpr] at hr
        exact hl.left.trans hr.right
    | waiting left' t =>
      rw [hpl] at hl
      dsimp only
      have hr := ihr t
      cases hpr : right.poll t with
      | aborted message u =>
        rw [hpr] at hr
        obtain ⟨q, v, hq, hc⟩ := hr
        exact ⟨_, v, hl.left.trans hq.right, .right hc⟩
      | done c u =>
        rw [hpr] at hr
        exact hl.left.trans hr.right
      | waiting right' u =>
        rw [hpr] at hr
        exact hl.left.trans hr.right
  | abort message => exact ⟨_, _, .refl, .abort⟩

theorem evolves_of_poll_done {p : Fiber σ α} {s s' : σ} {a : α} (h : p.poll s = .done a s') :
    Evolves others p s (.done a) s' := by
  have harrives : Arrives others p s (p.poll s) := arrives_poll p s
  rwa [h] at harrives

theorem evolves_of_poll_waiting {p p' : Fiber σ α} {s s' : σ} (h : p.poll s = .waiting p' s') :
    Evolves others p s p' s' := by
  have harrives : Arrives others p s (p.poll s) := arrives_poll p s
  rwa [h] at harrives

/-! ## Moves of sequences -/

/-- A sequence moves in its first part, or in the rest when that part is done. -/
theorem moves_of_bind {p : Fiber σ α} {k : α → Fiber σ β} {q : Fiber σ β} {s s' : σ}
    (h : Moves (p.bind k) s q s') :
    (∃ p', Moves p s p' s' ∧ q = p'.bind k) ∨ ∃ a, p = .done a ∧ Moves (k a) s q s' := by
  cases p with
  | done a => exact .inr ⟨a, rfl, h⟩
  | act step next =>
    cases h
    exact .inl ⟨_, .act, rfl⟩
  | wait due ready next =>
    cases h with
    | wait h => exact .inl ⟨_, .wait h, rfl⟩
  | race before after due body next =>
    cases h with
    | stop h => exact .inl ⟨_, .stop h, rfl⟩
    | ended h hp => exact .inl ⟨_, .ended h hp, rfl⟩
    | under h hp ha => exact .inl ⟨_, .under h hp ha, rfl⟩
    | late h hp ha => exact .inl ⟨_, .late h hp ha, rfl⟩
  | both left right next =>
    cases h with
    | left h => exact .inl ⟨_, .left h, rfl⟩
    | right h => exact .inl ⟨_, .right h, rfl⟩
    | join => exact .inl ⟨_, .join, rfl⟩
  | abort message => cases h

/-- A sequence evolves in its first part, or in the rest once that part is done. -/
theorem evolves_of_bind {p : Fiber σ α} {k : α → Fiber σ β} {q : Fiber σ β} {s s' : σ}
    (h : Evolves others (p.bind k) s q s') :
    (∃ p', Evolves others p s p' s' ∧ q = p'.bind k) ∨
      ∃ a t, Evolves others p s (.done a) t ∧ Evolves others (k a) t q s' := by
  induction h with
  | refl => exact .inl ⟨p, .refl, rfl⟩
  | move h hm ih =>
    rcases ih with ⟨p', hp, rfl⟩ | ⟨a, t, hp, hk⟩
    · rcases moves_of_bind hm with ⟨p'', hm', rfl⟩ | ⟨a, rfl, hm'⟩
      · exact .inl ⟨p'', hp.move hm', rfl⟩
      · exact .inr ⟨a, _, hp, .head hm' .refl⟩
    · exact .inr ⟨a, t, hp, hk.move hm⟩
  | other h ho ih =>
    rcases ih with ⟨p', hp, rfl⟩ | ⟨a, t, hp, hk⟩
    · exact .inl ⟨p', hp.other ho, rfl⟩
    · exact .inr ⟨a, t, hp, hk.other ho⟩

theorem crashes_of_bind {p : Fiber σ α} {k : α → Fiber σ β} {s s' : σ}
    (h : Crashes (p.bind k) s s') : Crashes p s s' ∨ ∃ a, p = .done a ∧ Crashes (k a) s s' := by
  cases p with
  | done a => exact .inr ⟨a, rfl, h⟩
  | act step next => cases h
  | wait due ready next => cases h
  | race before after due body next =>
    cases h with
    | race h hp => exact .inl (.race h hp)
  | both left right next =>
    cases h with
    | left h => exact .inl (.left h)
    | right h => exact .inl (.right h)
  | abort message =>
    cases h
    exact .inl .abort

end WorkflowEngine.Fiber
