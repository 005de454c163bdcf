import WorkflowEngine.Proofs.Fiber.Evolutions

/-!
# Twin fibers

Two fibers are twins under a relation of their states when they go on move by move and keep the relation,
and end with values that a second relation holds between. Main statements: where others take no notice of the
difference either, whatever one twin evolves into has a counterpart that the other one evolves into; and acts
that keep the relation may be left out.
-/

namespace WorkflowEngine.Fiber

open Relation

variable {σ α α' β β' : Type} {R : σ → σ → Prop} {V : α → α' → Prop} {W : β → β' → Prop}

/-- Two fibers that do the same up to a relation of states and one of values. -/
inductive Twins (R : σ → σ → Prop) :
    {α α' : Type} → (α → α' → Prop) → Fiber σ α → Fiber σ α' → Prop
  | done {α α' : Type} {V : α → α' → Prop} {a : α} {a' : α'} (h : V a a') :
      Twins R V (.done a) (.done a')
  | act {α α' β : Type} {V : α → α' → Prop} {step step' : σ → β × σ} {next : β → Fiber σ α}
      {next' : β → Fiber σ α'} (h : ∀ s s', R s s' → R (step s).2 (step' s').2)
      (hn : ∀ s s', R s s' → Twins R V (next (step s).1) (next' (step' s').1)) :
      Twins R V (.act step next) (.act step' next')
  | wait {α α' β : Type} {V : α → α' → Prop} {due : Option Nat}
      {ready ready' : σ → Option (β × σ)} {next : β → Fiber σ α} {next' : β → Fiber σ α'}
      (h : ∀ s s', R s s' →
        Option.Rel (fun r r' => r.1 = r'.1 ∧ R r.2 r'.2) (ready s) (ready' s'))
      (hn : ∀ b, Twins R V (next b) (next' b)) :
      Twins R V (.wait due ready next) (.wait due ready' next')
  | race {α α' β : Type} {V : α → α' → Prop} {before after : σ → Bool} {due : Option Nat}
      {body body' : Fiber σ β} {next : Option β → Fiber σ α} {next' : Option β → Fiber σ α'}
      (hbefore : ∀ s s', R s s' → before s' = before s)
      (hafter : ∀ s s', R s s' → after s' = after s) (hb : Twins R Eq body body')
      (hn : ∀ b, Twins R V (next b) (next' b)) :
      Twins R V (.race before after due body next) (.race before after due body' next')
  | both {α α' β γ : Type} {V : α → α' → Prop} {left left' : Fiber σ β} {right right' : Fiber σ γ}
      {next : β → γ → Fiber σ α} {next' : β → γ → Fiber σ α'} (hl : Twins R Eq left left')
      (hr : Twins R Eq right right') (hn : ∀ b c, Twins R V (next b c) (next' b c)) :
      Twins R V (.both left right next) (.both left' right' next')
  | abort {α α' : Type} {V : α → α' → Prop} (message : String) :
      Twins R V (.abort message : Fiber σ α) (.abort message : Fiber σ α')

/-- How twins stand after their turns. -/
inductive Paired (R : σ → σ → Prop) (V : α → α' → Prop) : Progress σ α → Progress σ α' → Prop
  | done {a : α} {a' : α'} {s s' : σ} (h : V a a') (hs : R s s') :
      Paired R V (.done a s) (.done a' s')
  | waiting {p : Fiber σ α} {p' : Fiber σ α'} {s s' : σ} (h : Twins R V p p') (hs : R s s') :
      Paired R V (.waiting p s) (.waiting p' s')
  | aborted {message : String} {s s' : σ} (hs : R s s') :
      Paired R V (.aborted message s) (.aborted message s')

namespace Twins

variable {p q : Fiber σ α} {p' q' : Fiber σ α'} {s s' t : σ}

theorem mono {V' : α → α' → Prop} (h : Twins R V p p') (hv : ∀ a a', V a a' → V' a a') :
    Twins R V' p p' := by
  induction h with
  | done ha => exact .done (hv _ _ ha)
  | act hs _ ih => exact .act hs fun s s' hr => ih s s' hr hv
  | wait hs _ ih => exact .wait hs fun b => ih b hv
  | race hbefore hafter hb _ _ ih => exact .race hbefore hafter hb fun b => ih b hv
  | both hl hr _ _ _ ih => exact .both hl hr fun b c => ih b c hv
  | abort message => exact .abort message

theorem bind {k : α → Fiber σ β} {k' : α' → Fiber σ β'} (h : Twins R V p p')
    (hk : ∀ a a', V a a' → Twins R W (k a) (k' a')) : Twins R W (p.bind k) (p'.bind k') := by
  induction h with
  | done ha => exact hk _ _ ha
  | act hs _ ih => exact .act hs fun s s' hr => ih s s' hr hk
  | wait hs _ ih => exact .wait hs fun b => ih b hk
  | race hbefore hafter hb _ _ ih => exact .race hbefore hafter hb fun b => ih b hk
  | both hl hr _ _ _ ih => exact .both hl hr fun b c => ih b c hk
  | abort message => exact .abort message

/-- Sequences whose first parts end with the same value. -/
theorem seq {p p' : Fiber σ γ} {k : γ → Fiber σ α} {k' : γ → Fiber σ α'} (h : Twins R Eq p p')
    (hk : ∀ c, Twins R V (k c) (k' c)) : Twins R V (p.bind k) (p'.bind k') :=
  h.bind fun c _ hc => hc ▸ hk c

theorem symm (hR : ∀ s s', R s s' → R s' s) (h : Twins R V p p') :
    Twins R (fun a' a => V a a') p' p := by
  have heq {γ : Type} {l l' : Fiber σ γ} (h : Twins R (fun c' c => c = c') l l') :
      Twins R Eq l l' := h.mono fun _ _ hc => hc.symm
  induction h with
  | done ha => exact .done ha
  | act hs _ ih =>
    exact .act (fun s s' hr => hR _ _ (hs s' s (hR _ _ hr))) fun s s' hr => ih s' s (hR _ _ hr)
  | @wait _ _ _ _ _ ready ready' _ _ hs _ ih =>
    refine .wait (fun s s' hr => ?_) ih
    have hready := hs s' s (hR _ _ hr)
    revert hready
    generalize ready s' = r
    generalize ready' s = r'
    rintro (h | -)
    · exact .some ⟨h.1.symm, hR _ _ h.2⟩
    · exact .none
  | race hbefore hafter _ _ ihb ih =>
    exact .race (fun s s' hr => (hbefore s' s (hR _ _ hr)).symm)
      (fun s s' hr => (hafter s' s (hR _ _ hr)).symm) (heq ihb) ih
  | both _ _ _ ihl ihr ih => exact .both (heq ihl) (heq ihr) ih
  | abort message => exact .abort message

theorem all {ps ps' : List (Fiber σ α)} (h : List.Forall₂ (Twins R Eq) ps ps') :
    Twins R Eq (Fiber.all ps) (Fiber.all ps') := by
  induction h with
  | nil => exact .done rfl
  | cons hp _ ih => exact .both hp ih fun _ _ => .done rfl

/-! ## Turns and moves -/

/-- Twins take the same turn. -/
theorem poll (h : Twins R V p p') (hr : R s s') : Paired R V (p.poll s) (p'.poll s') := by
  induction h generalizing s s' with
  | done ha => exact .done ha hr
  | act hs _ ih => exact ih s s' hr (hs s s' hr)
  | @wait _ _ _ _ due ready ready' next next' hs hn ih =>
    rw [Fiber.poll, Fiber.poll]
    have hready := hs s s' hr
    generalize ready s = r at hready
    generalize ready' s' = r' at hready
    cases hready with
    | none => exact .waiting (.wait hs hn) hr
    | @some r r' h =>
      obtain ⟨b, t⟩ := r
      obtain ⟨b', t'⟩ := r'
      obtain ⟨rfl, ht⟩ := h
      exact ih b ht
  | @race _ _ _ _ before after due body body' next next' hbefore hafter hb hn ihb ih =>
    rw [Fiber.poll, Fiber.poll, hbefore s s' hr]
    split
    · exact ih none hr
    · have hbody := ihb hr
      generalize body.poll s = q at hbody
      generalize body'.poll s' = q' at hbody
      cases hbody with
      | done ha ht =>
        subst ha
        exact ih _ ht
      | @waiting _ _ t t' hb ht =>
        simp only [hafter t t' ht]
        split
        · exact ih none ht
        · exact .waiting (.race hbefore hafter hb hn) ht
      | aborted ht => exact .aborted ht
  | @both _ _ _ _ _ left left' right right' next next' hl hr' hn ihl ihr ih =>
    rw [Fiber.poll, Fiber.poll]
    have hleft := ihl hr
    generalize left.poll s = q at hleft
    generalize left'.poll s' = q' at hleft
    cases hleft with
    | aborted ht => exact .aborted ht
    | @done b _ t t' hb ht =>
      subst hb
      have hright := ihr ht
      dsimp only
      generalize right.poll t = u at hright
      generalize right'.poll t' = u' at hright
      cases hright with
      | aborted hu => exact .aborted hu
      | done hc hu =>
        subst hc
        exact ih _ _ hu
      | waiting hright hu => exact .waiting (.both (.done rfl) hright hn) hu
    | @waiting left left' t t' hleft ht =>
      have hright := ihr ht
      dsimp only
      generalize right.poll t = u at hright
      generalize right'.poll t' = u' at hright
      cases hright with
      | aborted hu => exact .aborted hu
      | done hc hu => exact .waiting (.both hleft (.done hc) hn) hu
      | waiting hright hu => exact .waiting (.both hleft hright hn) hu
  | abort message => exact .aborted hr

theorem poll_done {a : α} (h : Twins R V p p') (hr : R s s') (hp : p.poll s = .done a t) :
    ∃ a' t', p'.poll s' = .done a' t' ∧ V a a' ∧ R t t' := by
  have hpaired := h.poll hr
  rw [hp] at hpaired
  generalize p'.poll s' = r at hpaired
  cases hpaired with
  | done ha ht => exact ⟨_, _, rfl, ha, ht⟩

theorem poll_waiting (h : Twins R V p p') (hr : R s s') (hp : p.poll s = .waiting q t) :
    ∃ q' t', p'.poll s' = .waiting q' t' ∧ Twins R V q q' ∧ R t t' := by
  have hpaired := h.poll hr
  rw [hp] at hpaired
  generalize p'.poll s' = r at hpaired
  cases hpaired with
  | waiting hq ht => exact ⟨_, _, rfl, hq, ht⟩

/-- What one twin does in a move, the other one does in a move. -/
theorem moves (h : Twins R V p p') (hr : R s s') (hm : Moves p s q t) :
    ∃ q' t', Moves p' s' q' t' ∧ Twins R V q q' ∧ R t t' := by
  induction hm generalizing α' s' with
  | act =>
    cases h with
    | act hs hn => exact ⟨_, _, .act, hn _ _ hr, hs _ _ hr⟩
  | @wait _ _ _ _ _ s t b hready =>
    cases h with
    | @wait _ _ _ _ _ _ ready' _ _ hs hn =>
      have hrel := hs s s' hr
      rw [hready] at hrel
      generalize hready' : ready' s' = r at hrel
      cases hrel with
      | @some _ r h =>
        obtain ⟨b', t'⟩ := r
        obtain ⟨rfl, ht⟩ := h
        exact ⟨_, t', .wait hready', hn b, ht⟩
  | stop hstop =>
    cases h with
    | race hbefore hafter hb hn =>
      exact ⟨_, _, .stop ((hbefore _ _ hr).trans hstop), hn none, hr⟩
  | ended hstop hp =>
    cases h with
    | race hbefore hafter hb hn =>
      obtain ⟨_, t', hp', rfl, ht⟩ := hb.poll_done hr hp
      exact ⟨_, t', .ended ((hbefore _ _ hr).trans hstop) hp', hn _, ht⟩
  | under hstop hp ha =>
    cases h with
    | race hbefore hafter hb hn =>
      obtain ⟨body', t', hp', hb', ht⟩ := hb.poll_waiting hr hp
      exact ⟨_, t', .under ((hbefore _ _ hr).trans hstop) hp' ((hafter _ _ ht).trans ha),
        .race hbefore hafter hb' hn, ht⟩
  | late hstop hp ha =>
    cases h with
    | race hbefore hafter hb hn =>
      obtain ⟨body', t', hp', -, ht⟩ := hb.poll_waiting hr hp
      exact ⟨_, t', .late ((hbefore _ _ hr).trans hstop) hp' ((hafter _ _ ht).trans ha), hn none, ht⟩
  | left _ ih =>
    cases h with
    | both hl hr' hn =>
      obtain ⟨left', t', hm', hl', ht⟩ := ih hl hr
      exact ⟨_, t', .left hm', .both hl' hr' hn, ht⟩
  | right _ ih =>
    cases h with
    | both hl hr' hn =>
      obtain ⟨right', t', hm', hright, ht⟩ := ih hr' hr
      exact ⟨_, t', .right hm', .both hl hright hn, ht⟩
  | join =>
    cases h with
    | both hl hr' hn =>
      cases hl with
      | done hb =>
        cases hr' with
        | done hc =>
          subst hb
          subst hc
          exact ⟨_, _, .join, hn _ _, hr⟩

end Twins

/-! ## Where others take no notice -/

section Unaware

variable {others : σ → σ → Prop} {s s' t : σ}
  (ho : ∀ s s' t, R s s' → others s t → ∃ t', others s' t' ∧ R t t')

include ho

theorem follows_of_others (hr : R s s') (h : ReflTransGen others s t) :
    ∃ t', ReflTransGen others s' t' ∧ R t t' := by
  induction h with
  | refl => exact ⟨s', .refl, hr⟩
  | tail _ hx ih =>
    obtain ⟨u, hu, hru⟩ := ih
    obtain ⟨t', ht, hrt⟩ := ho _ _ _ hru hx
    exact ⟨t', hu.tail ht, hrt⟩

/-- Whatever one twin evolves into, the other one evolves into a twin of it. -/
theorem Twins.evolves {p q : Fiber σ α} {p' : Fiber σ α'} (h : Twins R V p p') (hr : R s s')
    (he : Evolves others p s q t) :
    ∃ q' t', Evolves others p' s' q' t' ∧ Twins R V q q' ∧ R t t' := by
  induction he with
  | refl => exact ⟨p', s', .refl, h, hr⟩
  | move _ hm ih =>
    obtain ⟨q₁, t₁, he₁, hq₁, hr₁⟩ := ih
    obtain ⟨q', t', hm', hq', hr'⟩ := hq₁.moves hr₁ hm
    exact ⟨q', t', he₁.move hm', hq', hr'⟩
  | other _ hx ih =>
    obtain ⟨q', t₁, he₁, hq', hr₁⟩ := ih
    obtain ⟨t', ht', hr'⟩ := ho _ _ _ hr₁ hx
    exact ⟨q', t', he₁.other ht', hq', hr'⟩

/-- When one twin comes to its end, so can the other one. -/
theorem Twins.ends {p : Fiber σ α} {p' : Fiber σ α'} {a : α} (h : Twins R V p p') (hr : R s s')
    (he : Evolves others p s (.done a) t) :
    ∃ a' t', Evolves others p' s' (.done a') t' ∧ V a a' ∧ R t t' := by
  obtain ⟨q', t', he', hq, hrt⟩ := h.evolves ho hr he
  cases hq with
  | done ha => exact ⟨_, t', he', ha, hrt⟩

end Unaware

/-- A fiber that waits for nothing and whose acts keep a relation. -/
inductive Discreet (R : σ → σ → Prop) : {α : Type} → Fiber σ α → Prop
  | done {α : Type} (a : α) : Discreet R (.done a)
  | act {α β : Type} {step : σ → β × σ} {next : β → Fiber σ α} (h : ∀ s, R s (step s).2)
      (hn : ∀ b, Discreet R (next b)) : Discreet R (.act step next)

namespace Discreet

theorem bind {p : Fiber σ α} {k : α → Fiber σ β} (h : Discreet R p) (hk : ∀ a, Discreet R (k a)) :
    Discreet R (p.bind k) := by
  induction h with
  | done a => exact hk a
  | act hs _ ih => exact .act hs ih

/-- A discreet fiber may be left out: where it comes to its end, others alone lead to a related state. -/
theorem ends {others : σ → σ → Prop} {s s' t : σ} {a : α} {p : Fiber σ α}
    (ho : ∀ s s' t, R s s' → others s t → ∃ t', others s' t' ∧ R t t')
    (hsymm : ∀ s s', R s s' → R s' s) (htrans : ∀ s s' s'', R s s' → R s' s'' → R s s'')
    (h : Discreet R p) (hr : R s s') (he : Evolves others p s (.done a) t) :
    ∃ t', ReflTransGen others s' t' ∧ R t t' := by
  induction h generalizing s s' with
  | done b =>
    obtain ⟨-, hothers⟩ := evolves_of_done he
    exact follows_of_others ho hr hothers
  | act hs _ ih =>
    rcases evolves_of_act he with ⟨hdone, -⟩ | ⟨u, hothers, hrest⟩
    · cases hdone
    · obtain ⟨u', hothers', hru⟩ := follows_of_others ho hr hothers
      obtain ⟨t', ht', hrt⟩ := ih _ (htrans _ _ _ (hsymm _ _ (hs u)) hru) hrest
      exact ⟨t', hothers'.trans ht', hrt⟩

end Discreet

end WorkflowEngine.Fiber
