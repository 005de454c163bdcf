import Mathlib.Logic.Relation
import WorkflowEngine.Proofs.Fiber.Accounts

/-!
# Evolutions of fibers

What a fiber has done on its way to where it stands. Main statements: before its next move a fiber stands
still while others act; a fiber that has come to its end has made every move that it stood before; a race that
is done was stopped before a turn or after one, or its work came to its end in one; and fibers side by side
are done exactly when each of them has come to its end.
-/

namespace WorkflowEngine.Fiber

open Relation

variable {σ ε α β : Type} {others : σ → σ → Prop} {s s' t : σ}

/-- Others who may do more leave a fiber all the ways that it has. -/
theorem Evolves.mono {others' : σ → σ → Prop} {p q : Fiber σ α} (ho : ∀ s s', others s s' → others' s s')
    (h : Evolves others p s q s') : Evolves others' p s q s' := by
  induction h with
  | refl => exact .refl
  | move _ hm ih => exact ih.move hm
  | other _ hx ih => exact ih.other (ho _ _ hx)

/-- While others act, a fiber stands still. -/
theorem Evolves.still {p q : Fiber σ α} (h : Evolves others p s q s') (ho : ReflTransGen others s' t) :
    Evolves others p s q t := by
  induction ho with
  | refl => exact h
  | tail _ ho ih => exact ih.other ho

/-- A fiber that is done makes no move. -/
theorem evolves_of_done {a : α} {q : Fiber σ α} (h : Evolves others (.done a) s q s') :
    q = .done a ∧ ReflTransGen others s s' := by
  induction h with
  | refl => exact ⟨rfl, .refl⟩
  | move _ hm ih =>
    obtain ⟨rfl, -⟩ := ih
    cases hm
  | other _ ho ih => exact ⟨ih.1, ih.2.tail ho⟩

/-- An act is made after others have acted. -/
theorem evolves_of_act {step : σ → β × σ} {next : β → Fiber σ α} {q : Fiber σ α}
    (h : Evolves others (.act step next) s q s') :
    q = .act step next ∧ ReflTransGen others s s' ∨
      ∃ t, ReflTransGen others s t ∧ Evolves others (next (step t).1) (step t).2 q s' := by
  induction h with
  | refl => exact .inl ⟨rfl, .refl⟩
  | move _ hm ih =>
    rcases ih with ⟨rfl, ho⟩ | ⟨t, ho, h⟩
    · cases hm
      exact .inr ⟨_, ho, .refl⟩
    · exact .inr ⟨t, ho, h.move hm⟩
  | other _ hx ih =>
    rcases ih with ⟨rfl, ho⟩ | ⟨t, ho, h⟩
    · exact .inl ⟨rfl, ho.tail hx⟩
    · exact .inr ⟨t, ho, h.other hx⟩

/-- A wait is over after others have acted. -/
theorem evolves_of_wait {due : Option Nat} {ready : σ → Option (β × σ)} {next : β → Fiber σ α}
    {q : Fiber σ α} (h : Evolves others (.wait due ready next) s q s') :
    q = .wait due ready next ∧ ReflTransGen others s s' ∨
      ∃ t b t', ReflTransGen others s t ∧ ready t = some (b, t') ∧ Evolves others (next b) t' q s' := by
  induction h with
  | refl => exact .inl ⟨rfl, .refl⟩
  | move _ hm ih =>
    rcases ih with ⟨rfl, ho⟩ | ⟨t, b, t', ho, hr, h⟩
    · cases hm with
      | wait hr => exact .inr ⟨_, _, _, ho, hr, .refl⟩
    · exact .inr ⟨t, b, t', ho, hr, h.move hm⟩
  | other _ hx ih =>
    rcases ih with ⟨rfl, ho⟩ | ⟨t, b, t', ho, hr, h⟩
    · exact .inl ⟨rfl, ho.tail hx⟩
    · exact .inr ⟨t, b, t', ho, hr, h.other hx⟩

/-- A sequence that is done was done with its first part before. -/
theorem done_of_bind {p : Fiber σ α} {k : α → Fiber σ β} {b : β}
    (h : Evolves others (p.bind k) s (.done b) s') :
    ∃ a t, Evolves others p s (.done a) t ∧ Evolves others (k a) t (.done b) s' := by
  rcases evolves_of_bind h with ⟨p', hp, hk⟩ | h
  · cases p' with
    | done a => exact ⟨a, s', hp, hk ▸ .refl⟩
    | act | wait | race | both | abort => cases hk
  · exact h

theorem moves_bind {p p' : Fiber σ α} (h : Moves p s p' s') (k : α → Fiber σ β) :
    Moves (p.bind k) s (p'.bind k) s' := by
  cases h with
  | act => exact .act
  | wait h => exact .wait h
  | stop h => exact .stop h
  | ended h hp => exact .ended h hp
  | under h hp ha => exact .under h hp ha
  | late h hp ha => exact .late h hp ha
  | left h => exact .left h
  | right h => exact .right h
  | join => exact .join

/-- The first part of a sequence evolves on its own. -/
theorem Evolves.bind {p p' : Fiber σ α} (h : Evolves others p s p' s') (k : α → Fiber σ β) :
    Evolves others (p.bind k) s (p'.bind k) s' := by
  induction h with
  | refl => exact .refl
  | move _ hm ih => exact ih.move (moves_bind hm k)
  | other _ ho ih => exact ih.other ho

/-! ## Moves on the way -/

/-- On its way a fiber makes a move of a kind. -/
def Makes (others : σ → σ → Prop) (p : Fiber σ α) (s : σ) (q : Fiber σ α) (s' : σ)
    (kind : σ → σ → Prop) : Prop :=
  ∃ p₁ s₁ p₂ s₂, Evolves others p s p₁ s₁ ∧ Moves p₁ s₁ p₂ s₂ ∧ kind s₁ s₂ ∧
    Evolves others p₂ s₂ q s'

theorem Makes.after {p p' q : Fiber σ α} {kind : σ → σ → Prop} (h : Evolves others p s p' t)
    (hm : Makes others p' t q s' kind) : Makes others p s q s' kind := by
  obtain ⟨p₁, s₁, p₂, s₂, hp, hmove, hkind, hq⟩ := hm
  exact ⟨p₁, s₁, p₂, s₂, h.trans hp, hmove, hkind, hq⟩

/-- A fiber on its way, with what its own moves have added to the history. -/
inductive Adds (d : Discipline σ ε) (others : σ → σ → Prop) (p : Fiber σ α) (s : σ) :
    List ε → Fiber σ α → σ → Prop
  | refl : Adds d others p s [] p s
  | move {t u : List ε} {p' p'' : Fiber σ α} {s' s'' : σ} (h : Adds d others p s t p' s')
      (hm : Moves p' s' p'' s'') (hu : d.allows s' u s'') : Adds d others p s (t ++ u) p'' s''
  | other {t : List ε} {p' : Fiber σ α} {s' s'' : σ} (h : Adds d others p s t p' s')
      (ho : others s' s'') : Adds d others p s t p' s''

/-- What a fiber evolves into obeys what its account leaves after all that it added on its way. -/
theorem Obeys.adds {d : Discipline σ ε} {p q : Fiber σ α} {A : Account ε α} (hp : Obeys d p A)
    (h : Evolves others p s q s') : ∃ t, Adds d others p s t q s' ∧ Obeys d q (A.after t) := by
  induction h with
  | refl => exact ⟨[], .refl, hp⟩
  | move _ hm ih =>
    obtain ⟨t, ht, hq⟩ := ih
    obtain ⟨u, hu, hq'⟩ := hq.of_moves hm
    exact ⟨t ++ u, ht.move hm hu, by rwa [Account.after_after] at hq'⟩
  | other _ ho ih =>
    obtain ⟨t, ht, hq⟩ := ih
    exact ⟨t, ht.other ho, hq⟩

/-- What a fiber evolves into obeys what is left of the account. -/
theorem Obeys.evolves {d : Discipline σ ε} {p q : Fiber σ α} {A : Account ε α} (hp : Obeys d p A)
    (h : Evolves others p s q s') : ∃ t, Obeys d q (A.after t) := by
  obtain ⟨t, -, hq⟩ := hp.adds h
  exact ⟨t, hq⟩

/-! ## Races -/

section Races

variable {before after : σ → Bool}

/-- A fiber that goes on turn by turn, from the state of its first turn to that of its next. No turn leaves
a state that would stop it. -/
inductive GoesOn (others : σ → σ → Prop) (after : σ → Bool) (p : Fiber σ α) (s : σ) :
    Fiber σ α → σ → Prop
  | start : GoesOn others after p s p s
  | turn {p' p'' : Fiber σ α} {t t' t'' : σ} (h : GoesOn others after p s p' t)
      (hp : p'.poll t = .waiting p'' t') (ha : after t' = false) (ho : ReflTransGen others t' t'') :
      GoesOn others after p s p'' t''

/-- How a race ends in which the work is about to take a turn. -/
inductive Decides (before after : σ → Bool) (body : Fiber σ β) (s : σ) : Option β → σ → Prop
  /-- It is stopped before the turn. -/
  | stopped (h : before s = true) : Decides before after body s none s
  /-- The work comes to its end. -/
  | ended {b : β} {t : σ} (h : body.poll s = .done b t) : Decides before after body s (some b) t
  /-- It is stopped after the turn. -/
  | late {body' : Fiber σ β} {t : σ} (h : body.poll s = .waiting body' t) (ha : after t = true) :
      Decides before after body s none t

/-- The work of a race goes on until the race is decided. -/
theorem evolves_of_race {due : Option Nat} {body : Fiber σ β} {next : Option β → Fiber σ α}
    {q : Fiber σ α} {s s' : σ} (h : Evolves others (.race before after due body next) s q s') :
    (∃ s₀ body', ReflTransGen others s s₀ ∧ GoesOn others after body s₀ body' s' ∧
      q = .race before after due body' next) ∨
    ∃ s₀ body' t r t', ReflTransGen others s s₀ ∧ GoesOn others after body s₀ body' t ∧
      Decides before after body' t r t' ∧ Evolves others (next r) t' q s' := by
  induction h with
  | refl => exact .inl ⟨_, _, .refl, .start, rfl⟩
  | move _ hm ih =>
    rcases ih with ⟨s₀, body', ho, hb, rfl⟩ | ⟨s₀, body', t, r, t', ho, hb, hd, hq⟩
    · cases hm with
      | stop h => exact .inr ⟨_, _, _, _, _, ho, hb, .stopped h, .refl⟩
      | ended h hp => exact .inr ⟨_, _, _, _, _, ho, hb, .ended hp, .refl⟩
      | under h hp ha => exact .inl ⟨_, _, ho, hb.turn hp ha .refl, rfl⟩
      | late h hp ha => exact .inr ⟨_, _, _, _, _, ho, hb, .late hp ha, .refl⟩
    · exact .inr ⟨_, _, _, _, _, ho, hb, hd, hq.move hm⟩
  | other _ hx ih =>
    rcases ih with ⟨s₀, body', ho, hb, rfl⟩ | ⟨s₀, body', t, r, t', ho, hb, hd, hq⟩
    · -- Before its first turn the work has not begun, and only others have acted.
      cases hb with
      | start => exact .inl ⟨_, _, ho.tail hx, .start, rfl⟩
      | turn hb hp ha hos => exact .inl ⟨_, _, ho, hb.turn hp ha (hos.tail hx), rfl⟩
    · exact .inr ⟨_, _, _, _, _, ho, hb, hd, hq.other hx⟩

/-- A race that is done was decided. -/
theorem done_of_race {due : Option Nat} {body : Fiber σ β} {r : Option β} {s s' : σ}
    (h : Evolves others (.race before after due body .done) s (.done r) s') :
    ∃ s₀ body' t t', ReflTransGen others s s₀ ∧ GoesOn others after body s₀ body' t ∧
      Decides before after body' t r t' ∧ ReflTransGen others t' s' := by
  rcases evolves_of_race h with ⟨_, _, _, _, hq⟩ | ⟨s₀, body', t, r', t', ho, hb, hd, hq⟩
  · cases hq
  · obtain ⟨hq, ho'⟩ := evolves_of_done hq
    cases hq
    exact ⟨s₀, body', t, t', ho, hb, hd, ho'⟩

end Races

/-! ## Rows -/

section Rows

/-- Fibers in a row evolve: one of them moves, or others act. -/
inductive Together (others : σ → σ → Prop) (ps : List (Fiber σ α)) (s : σ) :
    List (Fiber σ α) → σ → Prop
  | refl : Together others ps s ps s
  | move {before after : List (Fiber σ α)} {p p' : Fiber σ α} {s' s'' : σ}
      (h : Together others ps s (before ++ p :: after) s') (hm : Moves p s' p' s'') :
      Together others ps s (before ++ p' :: after) s''
  | other {qs : List (Fiber σ α)} {s' s'' : σ} (h : Together others ps s qs s')
      (ho : others s' s'') : Together others ps s qs s''

variable {ps qs : List (Fiber σ α)}

theorem Together.length (h : Together others ps s qs s') : qs.length = ps.length := by
  induction h with
  | refl => rfl
  | move _ _ ih => simpa using ih
  | other _ _ ih => exact ih

/-- What a row has become as one fiber: its rest joins when it has come to its end. -/
private inductive StandsFor : List (Fiber σ α) → Fiber σ (List α) → Prop
  | ended (as : List α) : StandsFor (as.map .done) (.done as)
  | row {p : Fiber σ α} {ps : List (Fiber σ α)} {q : Fiber σ (List α)} (h : StandsFor ps q) :
      StandsFor (p :: ps) (.both p q fun a as => .done (a :: as))

private theorem standsFor_all (ps : List (Fiber σ α)) : StandsFor ps (all ps) := by
  induction ps with
  | nil => exact .ended []
  | cons p ps ih => exact .row ih

private theorem eq_of_standsFor {as : List α} (h : StandsFor ps (.done as)) : ps = as.map .done := by
  cases h with
  | ended => rfl

private theorem StandsFor.moves {q q' : Fiber σ (List α)} (h : StandsFor ps q)
    (hm : Moves q s q' s') :
    (∃ before p after p', ps = before ++ p :: after ∧ Moves p s p' s' ∧
      StandsFor (before ++ p' :: after) q') ∨ StandsFor ps q' ∧ s' = s := by
  induction h generalizing q' with
  | ended as => cases hm
  | @row p ps q h ih =>
    cases hm with
    | left hm => exact .inl ⟨[], p, ps, _, rfl, hm, .row h⟩
    | right hm =>
      rcases ih hm with ⟨before, p₁, after, p₂, rfl, hm, h'⟩ | ⟨h', rfl⟩
      · exact .inl ⟨p :: before, p₁, after, p₂, rfl, hm, .row h'⟩
      · exact .inr ⟨.row h', rfl⟩
    | join =>
      obtain rfl := eq_of_standsFor h
      exact .inr ⟨.ended (_ :: _), rfl⟩

private theorem together_of_evolves {q : Fiber σ (List α)} (h : Evolves others (all ps) s q s') :
    ∃ qs, Together others ps s qs s' ∧ StandsFor qs q := by
  induction h with
  | refl => exact ⟨ps, .refl, standsFor_all ps⟩
  | move _ hm ih =>
    obtain ⟨qs, hqs, hq⟩ := ih
    rcases hq.moves hm with ⟨before, p, after, p', rfl, hm, hq'⟩ | ⟨hq', rfl⟩
    · exact ⟨_, hqs.move hm, hq'⟩
    · exact ⟨qs, hqs, hq'⟩
  | other _ ho ih =>
    obtain ⟨qs, hqs, hq⟩ := ih
    exact ⟨qs, hqs.other ho, hq⟩

private theorem moves_all {p p' : Fiber σ α} (before after : List (Fiber σ α))
    (hm : Moves p s p' s') :
    Moves (all (before ++ p :: after)) s (all (before ++ p' :: after)) s' := by
  induction before with
  | nil => exact .left hm
  | cons q before ih => exact .right ih

private theorem evolves_of_together (h : Together others ps s qs s') :
    Evolves others (all ps) s (all qs) s' := by
  induction h with
  | refl => exact .refl
  | move _ hm ih => exact ih.move (moves_all _ _ hm)
  | other _ ho ih => exact ih.other ho

private theorem evolves_all_done (as : List α) (s : σ) :
    Evolves others (all (as.map (.done (σ := σ)))) s (.done as) s := by
  induction as with
  | nil => exact .refl
  | cons a as ih =>
    have hrest : Evolves others (all ((a :: as).map (.done (σ := σ)))) s
        (.both (.done a) (.done as) fun a as => .done (a :: as)) s := ih.right
    exact hrest.move .join

/-- Fibers side by side are done when each of them has come to its end, in whatever order. -/
theorem evolves_all {as : List α} :
    Evolves others (all ps) s (.done as) s' ↔ Together others ps s (as.map .done) s' := by
  constructor
  · intro h
    obtain ⟨qs, hqs, hq⟩ := together_of_evolves h
    exact eq_of_standsFor hq ▸ hqs
  · intro h
    exact (evolves_of_together h).trans (evolves_all_done as s')

end Rows

end WorkflowEngine.Fiber
