import WorkflowEngine.Proofs.Fiber.Moves

/-!
# Turns

A turn that brings a fiber further leaves it simpler than it was. Main statements: no fiber takes such
turns for ever, and one whose waits come to an end with some help takes a further one wherever it
stands, until it is done.
-/

namespace WorkflowEngine

/-- What waiting fibers may count on: from a sound state, others help on to a later one. -/
structure Support (σ : Type) where
  sound : σ → Prop
  helps : σ → σ → Prop
  refl (s : σ) : helps s s

namespace Fiber

variable {σ α β γ : Type}

/-- What is left of a fiber after a turn. -/
inductive Leaves : Progress σ α → Fiber σ α → σ → Prop
  | done {a : α} {s : σ} : Leaves (.done a s) (.done a) s
  | waiting {p : Fiber σ α} {s : σ} : Leaves (.waiting p s) p s

theorem evolves_of_leaves {others : σ → σ → Prop} {p p' : Fiber σ α} {s s' : σ}
    (h : Leaves (p.poll s) p' s') : Evolves others p s p' s' := by
  have harrives : Arrives others p s (p.poll s) := arrives_poll p s
  cases hp : p.poll s with
  | done a t | waiting q t =>
    rw [hp] at h harrives
    cases h
    exact harrives
  | aborted message t =>
    rw [hp] at h
    cases h

/-- A turn that cannot bring a fiber further leaves it as it is. -/
theorem poll_of_not_canGoOn {p : Fiber σ α} {s : σ} (h : p.canGoOn s = false) :
    p.poll s = .waiting p s := by
  induction p with
  | done a | act step next | abort message => cases h
  | wait due ready next =>
    have hr : ready s = none := by simpa [canGoOn] using h
    rw [poll, hr]
  | race before after due body next ihb =>
    simp only [canGoOn, Bool.or_eq_false_iff] at h
    obtain ⟨⟨hb, hbody⟩, ha⟩ := h
    simp [poll, hb, ihb hbody, ha]
  | both left right next ihl ihr =>
    simp only [canGoOn, Bool.or_eq_false_iff] at h
    obtain ⟨⟨hdone, hl⟩, hr⟩ := h
    have hcalm {δ : Type} {q : Fiber σ δ} (ih : q.canGoOn s = false → q.poll s = .waiting q s)
        (hq : (!q.isDone && q.canGoOn s) = false) :
        (∃ d, q = .done d) ∨ q.poll s = .waiting q s := by
      cases q with
      | done d => exact .inl ⟨d, rfl⟩
      | act | wait | race | both | abort => exact .inr (ih (by simpa [isDone] using hq))
    rcases hcalm ihl hl with ⟨b, rfl⟩ | hl <;> rcases hcalm ihr hr with ⟨c, rfl⟩ | hr
    · cases hdone
    · simp [poll, hr]
    · simp [poll, hl]
    · simp [poll, hl, hr]

theorem isDone_of_waiting {p p' : Fiber σ α} {s s' : σ} (h : p.poll s = .waiting p' s') :
    p.isDone = false := by
  cases p with
  | done a => cases h
  | act | wait | race | both | abort => rfl

/-- A turn leads a fiber further. -/
def Turn (p' p : Fiber σ α) : Prop :=
  ∃ s s', (!p.isDone && p.canGoOn s) = true ∧ Leaves (p.poll s) p' s'

/-- A turn leads a fiber further or leaves everything as it is. -/
theorem turn_of_leaves {p p' : Fiber σ α} {s s' : σ} (h : Leaves (p.poll s) p' s') :
    Turn p' p ∨ p' = p ∧ s' = s ∧ (!p.isDone && p.canGoOn s) = false := by
  cases hs : !p.isDone && p.canGoOn s with
  | true => exact .inl ⟨s, s', hs, h⟩
  | false =>
    rw [Bool.and_eq_false_iff] at hs
    rcases hs with hd | hs
    · cases p with
      | done a =>
        cases h
        exact .inr ⟨rfl, rfl, rfl⟩
      | act | wait | race | both | abort => cases hd
    · rw [poll_of_not_canGoOn hs] at h
      cases h
      exact .inr ⟨rfl, rfl, rfl⟩

private theorem acc_of_leaves {p p' : Fiber σ α} {s s' : σ} (hp : Acc Turn p)
    (h : Leaves (p.poll s) p' s') : Acc Turn p' := by
  rcases turn_of_leaves h with ht | ⟨rfl, -⟩
  · exact hp.inv ht
  · exact hp

private theorem acc_race {before after : σ → Bool} {due : Option Nat} {body : Fiber σ β}
    {next : Option β → Fiber σ α} (hbody : Acc Turn body) (hnext : ∀ r, Acc Turn (next r)) :
    Acc Turn (.race before after due body next) := by
  induction hbody with
  | intro body hbody ih =>
    refine .intro _ ?_
    rintro p' ⟨s, s', hs, h⟩
    rw [poll] at h
    split at h
    · exact acc_of_leaves (hnext none) h
    · rename_i hb
      split at h
      · exact acc_of_leaves (hnext _) h
      · rename_i body' t hp
        split at h
        · exact acc_of_leaves (hnext none) h
        · rename_i ha
          cases h
          have hleaves : Leaves (body.poll s) body' s' := hp ▸ .waiting
          rcases turn_of_leaves hleaves with ht | ⟨rfl, rfl, hc⟩
          · exact ih body' ht
          · -- Work that could not go on would have been stopped.
            rw [isDone_of_waiting hp, Bool.not_false, Bool.true_and] at hc
            simp [isDone, canGoOn, hb, hc, ha] at hs
      · cases h

/-- A turn of fibers side by side is a turn of each of them, and what follows when both are done. -/
private theorem leaves_both {left : Fiber σ β} {right : Fiber σ γ} {next : β → γ → Fiber σ α}
    {p' : Fiber σ α} {s s' : σ} (h : Leaves ((both left right next).poll s) p' s') :
    (∃ b c t, Leaves ((next b c).poll t) p' s') ∨ ∃ left' right' t, Leaves (left.poll s) left' t ∧
      Leaves (right.poll t) right' s' ∧ p' = .both left' right' next ∧
      (left.isDone && right.isDone) = false := by
  rw [poll] at h
  split at h
  · cases h
  · rename_i t hl
    split at h
    · cases h
    · exact .inl ⟨_, _, _, h⟩
    · rename_i hr
      cases h
      exact .inr ⟨_, _, t, hl ▸ .done, hr ▸ .waiting, rfl, by simp [isDone_of_waiting hr]⟩
  · rename_i t hl
    have hdone : (left.isDone && right.isDone) = false := by simp [isDone_of_waiting hl]
    split at h
    · cases h
    · rename_i hr
      cases h
      exact .inr ⟨_, _, t, hl ▸ .waiting, hr ▸ .done, rfl, hdone⟩
    · rename_i hr
      cases h
      exact .inr ⟨_, _, t, hl ▸ .waiting, hr ▸ .waiting, rfl, hdone⟩

private theorem acc_both {left : Fiber σ β} {right : Fiber σ γ} {next : β → γ → Fiber σ α}
    (hl : Acc Turn left) (hr : Acc Turn right) (hnext : ∀ b c, Acc Turn (next b c)) :
    Acc Turn (.both left right next) := by
  induction hl generalizing right with
  | intro left hleft ihl =>
    induction hr with
    | intro right hright ihr =>
      refine .intro _ ?_
      rintro p' ⟨s, s', hs, h⟩
      rcases leaves_both h with ⟨b, c, t, h⟩ | ⟨left', right', t, hl, hr, rfl, hdone⟩
      · exact acc_of_leaves (hnext b c) h
      · rcases turn_of_leaves hl with hturn | ⟨rfl, rfl, hl⟩
        · exact ihl left' hturn (acc_of_leaves (.intro right hright) hr)
        · rcases turn_of_leaves hr with hturn | ⟨rfl, rfl, hr⟩
          · exact ihr right' hturn
          · simp only [canGoOn, hdone, hl, hr, Bool.or_self, Bool.and_false] at hs
            cases hs

private theorem acc_turn (p : Fiber σ α) : Acc Turn p := by
  induction p with
  | done a =>
    refine .intro _ ?_
    rintro p' ⟨s, s', hs, h⟩
    cases hs
  | act step next ih =>
    refine .intro _ ?_
    rintro p' ⟨s, s', hs, h⟩
    exact acc_of_leaves (ih _) h
  | wait due ready next ih =>
    refine .intro _ ?_
    rintro p' ⟨s, s', hs, h⟩
    rw [poll] at h
    split at h
    · exact acc_of_leaves (ih _) h
    · rename_i hr
      simp [isDone, canGoOn, hr] at hs
  | race before after due body next ihb ih => exact acc_race ihb ih
  | both left right next ihl ihr ih => exact acc_both ihl ihr ih
  | abort message =>
    refine .intro _ ?_
    rintro p' ⟨s, s', hs, h⟩
    cases h

/-- No fiber goes on for ever. -/
theorem wellFounded_turn : WellFounded fun p' p : Fiber σ α => Turn p' p := ⟨acc_turn⟩

/-! ## Lively fibers -/

/-- A fiber that is not aborted and whose waits come to an end with some help. -/
def Lively (S : Support σ) : {α : Type} → Fiber σ α → Prop
  | _, done _ => True
  | _, act _ next => ∀ b, Lively S (next b)
  | _, wait _ ready next =>
    (∀ s, S.sound s → ∃ s', S.helps s s' ∧ (ready s').isSome) ∧ ∀ b, Lively S (next b)
  | _, race _ _ _ body next => Lively S body ∧ ∀ r, Lively S (next r)
  | _, both left right next => Lively S left ∧ Lively S right ∧ ∀ b c, Lively S (next b c)
  | _, abort _ => False

namespace Lively

variable {S : Support σ} {p p' : Fiber σ α} {s s' : σ}

theorem bind {k : α → Fiber σ β} (h : Lively S p) (hk : ∀ a, Lively S (k a)) :
    Lively S (p.bind k) := by
  induction p with
  | done a => exact hk a
  | act step next ih => exact fun b => ih b (h b) hk
  | wait due ready next ih => exact ⟨h.1, fun b => ih b (h.2 b) hk⟩
  | race before after due body next _ ih => exact ⟨h.1, fun r => ih r (h.2 r) hk⟩
  | both left right next _ _ ih => exact ⟨h.1, h.2.1, fun b c => ih b c (h.2.2 b c) hk⟩
  | abort message => exact h

theorem all {ps : List (Fiber σ α)} (h : ∀ p ∈ ps, Lively S p) : Lively S (Fiber.all ps) := by
  induction ps with
  | nil => trivial
  | cons p rest ih => exact ⟨h p (by simp), ih fun q hq => h q (by simp [hq]), fun _ _ => trivial⟩

/-- Every turn of a lively fiber leaves a lively one. -/
theorem poll (h : Lively S p) (s : σ) : ∃ p' s', Leaves (p.poll s) p' s' ∧ Lively S p' := by
  induction p generalizing s with
  | done a => exact ⟨_, _, .done, trivial⟩
  | act step next ih => exact ih _ (h _) _
  | wait due ready next ih =>
    rw [Fiber.poll]
    split
    · exact ih _ (h.2 _) _
    · exact ⟨_, _, .waiting, h⟩
  | race before after due body next ihb ih =>
    rw [Fiber.poll]
    split
    · exact ih none (h.2 none) s
    · obtain ⟨body', t, hb, hbody⟩ := ihb h.1 s
      generalize body.poll s = r at hb ⊢
      cases hb with
      | done => exact ih _ (h.2 _) t
      | waiting =>
        dsimp only
        split
        · exact ih none (h.2 none) t
        · exact ⟨_, _, .waiting, hbody, h.2⟩
  | both left right next ihl ihr ih =>
    rw [Fiber.poll]
    obtain ⟨left', t, hl, hleft⟩ := ihl h.1 s
    obtain ⟨right', u, hr, hright⟩ := ihr h.2.1 t
    generalize left.poll s = l at hl ⊢
    cases hl with
    | done =>
      dsimp only
      generalize right.poll t = r at hr ⊢
      cases hr with
      | done => exact ih _ _ (h.2.2 _ _) u
      | waiting => exact ⟨_, _, .waiting, trivial, hright, h.2.2⟩
    | waiting =>
      dsimp only
      generalize right.poll t = r at hr ⊢
      cases hr with
      | done => exact ⟨_, _, .waiting, hleft, trivial, h.2.2⟩
      | waiting => exact ⟨_, _, .waiting, hleft, hright, h.2.2⟩
  | abort message => exact h.elim

/-- A lively fiber moves on to a lively one. -/
theorem of_moves (hm : Moves p s p' s') (h : Lively S p) : Lively S p' := by
  induction hm with
  | act => exact h _
  | wait => exact h.2 _
  | stop | ended | late => exact h.2 _
  | under hb hp ha =>
    obtain ⟨body', t, hl, hbody⟩ := h.1.poll _
    rw [hp] at hl
    cases hl
    exact ⟨hbody, h.2⟩
  | left _ ih => exact ⟨ih h.1, h.2⟩
  | right _ ih => exact ⟨h.1, ih h.2.1, h.2.2⟩
  | join => exact h.2.2 _ _

/-- With some help, a lively fiber can go on. -/
theorem canGoOn (h : Lively S p) (hs : S.sound s) : ∃ s', S.helps s s' ∧ p.canGoOn s' = true := by
  induction p with
  | done a | act step next | abort message => exact ⟨s, S.refl s, rfl⟩
  | wait due ready next => exact h.1 s hs
  | race before after due body next ihb =>
    obtain ⟨s', hh, hc⟩ := ihb h.1
    exact ⟨s', hh, by simp [Fiber.canGoOn, hc]⟩
  | both left right next ihl ihr =>
    cases hl : left.isDone with
    | false =>
      obtain ⟨s', hh, hc⟩ := ihl h.1
      exact ⟨s', hh, by simp [Fiber.canGoOn, hl, hc]⟩
    | true =>
      cases hr : right.isDone with
      | false =>
        obtain ⟨s', hh, hc⟩ := ihr h.2.1
        exact ⟨s', hh, by simp [Fiber.canGoOn, hr, hc]⟩
      | true => exact ⟨s, S.refl s, by simp [Fiber.canGoOn, hl, hr]⟩

/-- A lively fiber comes to its end when the others go on helping, as long as all remains sound. -/
theorem finishes (h : Lively S p)
    (hs : ∀ q t, Evolves S.helps p s q t → S.sound t) :
    ∃ a t, Evolves S.helps p s (.done a) t := by
  induction p using wellFounded_turn.induction generalizing s with
  | h p ih =>
    cases hdone : p.isDone with
    | true =>
      cases p with
      | done a => exact ⟨a, s, .refl⟩
      | act | wait | race | both | abort => cases hdone
    | false =>
      obtain ⟨s₁, hh, hgo⟩ := h.canGoOn (hs p s .refl)
      obtain ⟨q, s₂, hleaves, hq⟩ := h.poll s₁
      have hturn : Evolves S.helps p s q s₂ :=
        (Evolves.refl.other hh).trans (evolves_of_leaves hleaves)
      obtain ⟨a, t, hend⟩ := ih q ⟨s₁, s₂, by simp [hdone, hgo], hleaves⟩ hq
        fun q' t h' => hs q' t (hturn.trans h')
      exact ⟨a, t, hturn.trans hend⟩

end Lively

end Fiber

end WorkflowEngine

/-! ## Disturbances

Whether a turn of a fiber is disturbed: it comes by a bad state, stops work before its end or is aborted.
Main statement: the turn of a sequence is disturbed in its first part, or in the rest when that part is done
in the same turn.
-/

namespace WorkflowEngine.Fiber

variable {σ α β : Type} {bad : σ → Bool}

/-- Whether a turn comes by a bad state, stops work before its end or is aborted. -/
def disturbed (bad : σ → Bool) : {α : Type} → Fiber σ α → σ → Bool
  | _, done _, _ => false
  | _, abort _, _ => true
  | _, act step next, s => bad (step s).2 || (next (step s).1).disturbed bad (step s).2
  | _, wait _ ready next, s =>
    match ready s with
    | some (b, s) => bad s || (next b).disturbed bad s
    | none => false
  | _, race before after _ body next, s =>
    before s || (body.disturbed bad s || match body.poll s with
      | .done b s => (next (some b)).disturbed bad s
      | .waiting _ s => after s
      | .aborted _ _ => false)
  | _, both left right next, s =>
    left.disturbed bad s || match left.poll s with
      | .aborted _ _ => false
      | .done b s => right.disturbed bad s || match right.poll s with
        | .done c s => (next b c).disturbed bad s
        | _ => false
      | .waiting _ s => right.disturbed bad s

theorem disturbed_bind (p : Fiber σ α) (k : α → Fiber σ β) (s : σ) :
    (p.bind k).disturbed bad s = (p.disturbed bad s || match p.poll s with
      | .done a s => (k a).disturbed bad s
      | _ => false) := by
  induction p generalizing s with
  | done a | abort message => rfl
  | act step next ih => simp only [bind, disturbed, poll, ih, Bool.or_assoc]
  | wait due ready next ih =>
    simp only [bind, disturbed, poll]
    cases ready s with
    | none => rfl
    | some r => simp only [ih, Bool.or_assoc]
  | race before after due body next _ ih =>
    simp only [bind, disturbed, poll]
    cases before s with
    | true => rfl
    | false =>
      cases body.poll s with
      | done b s => simp only [ih, Bool.or_assoc, Bool.false_eq_true, if_false]
      | waiting body s =>
        dsimp only
        cases after s <;> simp
      | aborted message s => simp
  | both left right next _ _ ih =>
    simp only [bind, disturbed, poll]
    cases left.poll s with
    | aborted message s => simp
    | done b s =>
      dsimp only
      cases right.poll s with
      | done c s => simp only [ih, Bool.or_assoc]
      | waiting right s | aborted message s => simp
    | waiting left s =>
      dsimp only
      cases right.poll s <;> simp

end WorkflowEngine.Fiber
