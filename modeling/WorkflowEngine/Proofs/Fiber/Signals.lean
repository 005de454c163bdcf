import WorkflowEngine.Proofs.Fiber.Accounts

/-!
# Signals

A signal is a condition that lasts once it is given and after which some happenings are out of
place. A fiber heeds it when it comes to its end in one turn and without them, whatever work it has
under way. Main statements: what a heeding fiber moves on to heeds the signal, and work that was
stopped by it decides how the fiber ends.
-/

namespace WorkflowEngine

/-- A condition that lasts, and the happenings that are out of place while it holds. -/
structure Signal (σ ε : Type) extends Discipline σ ε where
  given : σ → Prop
  lasts {s s' : σ} {t : List ε} (h : allows s t s') (hs : given s) : given s'
  forbids : ε → Bool

namespace Fiber

variable {σ ε α β γ : Type}

/-- A fiber that comes to its end in one turn once the signal is given, with a value of a kind. -/
def Ends (S : Signal σ ε) : {α : Type} → Fiber σ α → (α → Prop) → Prop
  | _, done a, Y => Y a
  | _, act step next, Y => ∀ s, S.given s →
    (∃ t, S.allows s t (step s).2 ∧ t.countP S.forbids = 0) ∧ Ends S (next (step s).1) Y
  | _, wait _ ready next, Y => ∀ s, S.given s → ∃ b s', ready s = some (b, s') ∧
    (∃ t, S.allows s t s' ∧ t.countP S.forbids = 0) ∧ Ends S (next b) Y
  | _, race before _ _ _ next, Y => (∀ s, S.given s → before s = true) ∧ Ends S (next none) Y
  | _, @both _ _ β γ left right next, Y =>
    ∃ (Y₁ : β → Prop) (Y₂ : γ → Prop), Ends S left Y₁ ∧ Ends S right Y₂ ∧
      ∀ b c, Y₁ b → Y₂ c → Ends S (next b c) Y
  | _, abort _, _ => False

/-- A fiber that ends once the signal is given. Forbidden things happen in work that may be
stopped only, one at most in each; when such work is stopped the fiber ends with a value of a
kind. -/
def Heeds (S : Signal σ ε) : {α : Type} → Fiber σ α → (α → Prop) → Prop
  | _, done _, _ => True
  | _, act step next, X =>
    (∀ s, ∃ t, S.allows s t (step s).2 ∧ t.countP S.forbids = 0) ∧ ∀ b, Heeds S (next b) X
  | _, wait _ ready next, X => (∀ s, S.given s → (ready s).isSome) ∧
    (∀ s b s', ready s = some (b, s') → ∃ t, S.allows s t s' ∧ t.countP S.forbids = 0) ∧
    ∀ b, Heeds S (next b) X
  | _, @race _ _ β before _ _ body next, X => (∀ s, S.given s → before s = true) ∧
    (∃ B : Account ε β, Obeys S.toDiscipline body B ∧ ∀ t r, B t r → t.countP S.forbids ≤ 1) ∧
    Ends S (next none) X ∧ ∀ r, Heeds S (next r) X
  | _, @both _ _ β γ left right next, X =>
    ∃ (X₁ : β → Prop) (X₂ : γ → Prop), Heeds S left X₁ ∧ Heeds S right X₂ ∧
      (∀ b c, Heeds S (next b c) X) ∧ ∀ b c, X₁ b ∨ X₂ c → Ends S (next b c) X
  | _, abort _, _ => False

/-- Whether one of its strands is in work that may be stopped. -/
def isStoppable : {α : Type} → Fiber σ α → Bool
  | _, race .. => true
  | _, both left right _ => left.isStoppable || right.isStoppable
  | _, _ => false

theorem stoppable_of_bind {p : Fiber σ α} {k : α → Fiber σ β} (h : (p.bind k).isStoppable) :
    p.isStoppable ∨ ∃ a, p = .done a ∧ (k a).isStoppable := by
  cases p with
  | done a => exact .inr ⟨a, rfl, h⟩
  | act step next | wait due ready next | abort message => cases h
  | race before after due body next | both left right next => exact .inl h

variable {S : Signal σ ε} {s s' : σ} {p p' : Fiber σ α} {X Y : α → Prop}

namespace Ends

theorem mono {Y' : α → Prop} (h : Ends S p Y) (hY : ∀ a, Y a → Y' a) : Ends S p Y' := by
  induction p with
  | done a => exact hY a h
  | act step next ih => exact fun s hs => ⟨(h s hs).1, ih _ (h s hs).2 hY⟩
  | wait due ready next ih =>
    intro s hs
    obtain ⟨b, s', hr, ht, hn⟩ := h s hs
    exact ⟨b, s', hr, ht, ih b hn hY⟩
  | race before after due body next _ ih => exact ⟨h.1, ih _ h.2 hY⟩
  | both left right next _ _ ih =>
    obtain ⟨Y₁, Y₂, hl, hr, hn⟩ := h
    exact ⟨Y₁, Y₂, hl, hr, fun b c hb hc => ih b c (hn b c hb hc) hY⟩
  | abort message => exact h

theorem bind {k : α → Fiber σ β} {Z : β → Prop} (h : Ends S p Y)
    (hk : ∀ a, Y a → Ends S (k a) Z) : Ends S (p.bind k) Z := by
  induction p with
  | done a => exact hk a h
  | act step next ih => exact fun s hs => ⟨(h s hs).1, ih _ (h s hs).2 hk⟩
  | wait due ready next ih =>
    intro s hs
    obtain ⟨b, s', hr, ht, hn⟩ := h s hs
    exact ⟨b, s', hr, ht, ih b hn hk⟩
  | race before after due body next _ ih => exact ⟨h.1, ih _ h.2 hk⟩
  | both left right next _ _ ih =>
    obtain ⟨Y₁, Y₂, hl, hr, hn⟩ := h
    exact ⟨Y₁, Y₂, hl, hr, fun b c hb hc => ih b c (hn b c hb hc) hk⟩
  | abort message => exact h

/-- Once the signal is given, one turn is enough. -/
theorem poll (h : Ends S p Y) (hs : S.given s) : ∃ a s' t, p.poll s = .done a s' ∧ Y a ∧
    S.allows s t s' ∧ t.countP S.forbids = 0 := by
  induction p generalizing s with
  | done a => exact ⟨a, s, [], rfl, h, S.nil s, rfl⟩
  | act step next ih =>
    obtain ⟨⟨t, ht, hc⟩, hn⟩ := h s hs
    obtain ⟨a, s', u, hp, ha, hu, hd⟩ := ih _ hn (S.lasts ht hs)
    exact ⟨a, s', t ++ u, hp, ha, S.append ht hu, by simp [hc, hd]⟩
  | wait due ready next ih =>
    obtain ⟨b, s₁, hr, ⟨t, ht, hc⟩, hn⟩ := h s hs
    obtain ⟨a, s', u, hp, ha, hu, hd⟩ := ih b hn (S.lasts ht hs)
    exact ⟨a, s', t ++ u, by simpa [Fiber.poll, hr] using hp, ha, S.append ht hu, by simp [hc, hd]⟩
  | race before after due body next _ ih =>
    obtain ⟨a, s', t, hp, ha⟩ := ih _ h.2 hs
    exact ⟨a, s', t, by simpa [Fiber.poll, h.1 s hs] using hp, ha⟩
  | both left right next ihl ihr ih =>
    obtain ⟨Y₁, Y₂, hl, hr, hn⟩ := h
    obtain ⟨b, s₁, t, hpl, hb, ht, hc⟩ := ihl hl hs
    obtain ⟨c, s₂, u, hpr, hc', hu, hd⟩ := ihr hr (S.lasts ht hs)
    obtain ⟨a, s', v, hp, ha, hv, hf⟩ := ih b c (hn b c hb hc') (S.lasts hu (S.lasts ht hs))
    exact ⟨a, s', t ++ (u ++ v), by simpa [Fiber.poll, hpl, hpr] using hp, ha,
      S.append ht (S.append hu hv), by simp [hc, hd, hf]⟩
  | abort message => exact h.elim

/-- A move after the signal does nothing that it forbids and comes closer to the end. -/
theorem of_moves (hm : Moves p s p' s') (h : Ends S p Y) (hs : S.given s) :
    (∃ t, S.allows s t s' ∧ t.countP S.forbids = 0) ∧ Ends S p' Y := by
  induction hm with
  | act => exact h _ hs
  | wait hr =>
    obtain ⟨b, s', hr', ht, hn⟩ := h _ hs
    rw [hr] at hr'
    cases hr'
    exact ⟨ht, hn⟩
  | stop hb => exact ⟨⟨[], S.nil _, rfl⟩, h.2⟩
  | ended hb hp | under hb hp ha | late hb hp ha =>
    rw [h.1 _ hs] at hb
    cases hb
  | left _ ih =>
    obtain ⟨Y₁, Y₂, hl, hr, hn⟩ := h
    obtain ⟨ht, hl⟩ := ih hl hs
    exact ⟨ht, Y₁, Y₂, hl, hr, hn⟩
  | right _ ih =>
    obtain ⟨Y₁, Y₂, hl, hr, hn⟩ := h
    obtain ⟨ht, hr⟩ := ih hr hs
    exact ⟨ht, Y₁, Y₂, hl, hr, hn⟩
  | join =>
    obtain ⟨Y₁, Y₂, hl, hr, hn⟩ := h
    exact ⟨⟨[], S.nil _, rfl⟩, hn _ _ hl hr⟩

/-- However a fiber evolves after the signal, it comes to the same end. -/
theorem of_evolves {others : σ → σ → Prop} (ho : ∀ {s s'}, others s s' → S.given s → S.given s')
    (h : Ends S p Y) (hs : S.given s) (he : Evolves others p s p' s') :
    Ends S p' Y ∧ S.given s' := by
  induction he with
  | refl => exact ⟨h, hs⟩
  | move _ hm ih =>
    obtain ⟨⟨t, ht, -⟩, hp⟩ := of_moves hm ih.1 ih.2
    exact ⟨hp, S.lasts ht ih.2⟩
  | other _ h' ih => exact ⟨ih.1, ho h' ih.2⟩

end Ends

namespace Heeds

theorem ends (h : Heeds S p X) : Ends S p fun _ => True := by
  induction p with
  | done a => trivial
  | act step next ih => exact fun s _ => ⟨h.1 s, ih _ (h.2 _)⟩
  | wait due ready next ih =>
    intro s hs
    obtain ⟨⟨b, s'⟩, hr⟩ := Option.isSome_iff_exists.1 (h.1 s hs)
    exact ⟨b, s', hr, h.2.1 s b s' hr, ih b (h.2.2 b)⟩
  | race before after due body next _ ih => exact ⟨h.1, h.2.2.1.mono fun _ _ => trivial⟩
  | both left right next ihl ihr ih =>
    obtain ⟨X₁, X₂, hl, hr, hn, -⟩ := h
    exact ⟨_, _, ihl hl, ihr hr, fun b c _ _ => ih b c (hn b c)⟩
  | abort message => exact h

/-- Work that the signal stops decides how the fiber ends. -/
theorem ends_of_stoppable (h : Heeds S p X) (hp : p.isStoppable) : Ends S p X := by
  induction p with
  | done a | act step next | wait due ready next | abort message => cases hp
  | race before after due body next => exact ⟨h.1, h.2.2.1⟩
  | both left right next ihl ihr =>
    obtain ⟨X₁, X₂, hl, hr, -, hn⟩ := h
    rcases Bool.or_eq_true _ _ ▸ hp with hp | hp
    · exact ⟨_, _, ihl hl hp, hr.ends, fun b c hb _ => hn b c (.inl hb)⟩
    · exact ⟨_, _, hl.ends, ihr hr hp, fun b c _ hc => hn b c (.inr hc)⟩

theorem bind {k : α → Fiber σ β} {Z : β → Prop} (h : Heeds S p X) (hk : ∀ a, Heeds S (k a) Z)
    (hX : ∀ a, X a → Ends S (k a) Z) : Heeds S (p.bind k) Z := by
  induction p with
  | done a => exact hk a
  | act step next ih => exact ⟨h.1, fun b => ih b (h.2 b) hk hX⟩
  | wait due ready next ih => exact ⟨h.1, h.2.1, fun b => ih b (h.2.2 b) hk hX⟩
  | race before after due body next _ ih =>
    exact ⟨h.1, h.2.1, h.2.2.1.bind hX, fun r => ih r (h.2.2.2 r) hk hX⟩
  | both left right next _ _ ih =>
    obtain ⟨X₁, X₂, hl, hr, hn, he⟩ := h
    exact ⟨X₁, X₂, hl, hr, fun b c => ih b c (hn b c) hk hX, fun b c hbc => (he b c hbc).bind hX⟩
  | abort message => exact h

/-- A move does one forbidden thing at most, none once the signal is given, and leads to a fiber
that heeds the signal. -/
theorem of_moves (hm : Moves p s p' s') (h : Heeds S p X) :
    (∃ t, S.allows s t s' ∧ t.countP S.forbids ≤ 1 ∧ (S.given s → t.countP S.forbids = 0)) ∧
      Heeds S p' X := by
  have calm {s s' : σ} (h : ∃ t, S.allows s t s' ∧ t.countP S.forbids = 0) :
      ∃ t, S.allows s t s' ∧ t.countP S.forbids ≤ 1 ∧ (S.given s → t.countP S.forbids = 0) := by
    obtain ⟨t, ht, hc⟩ := h
    exact ⟨t, ht, by omega, fun _ => hc⟩
  -- Work goes on only as long as the signal is not given.
  have brief {s s' : σ} {t : List ε} {before : σ → Bool} (hb : before s = false)
      (hg : ∀ s, S.given s → before s = true) (ht : S.allows s t s') (hc : t.countP S.forbids ≤ 1) :
      ∃ t, S.allows s t s' ∧ t.countP S.forbids ≤ 1 ∧ (S.given s → t.countP S.forbids = 0) :=
    ⟨t, ht, hc, fun hs => absurd ((hg s hs).symm.trans hb) (by decide)⟩
  induction hm with
  | act => exact ⟨calm (h.1 _), h.2 _⟩
  | wait hr => exact ⟨calm (h.2.1 _ _ _ hr), h.2.2 _⟩
  | stop hb => exact ⟨calm ⟨[], S.nil _, rfl⟩, h.2.2.2 none⟩
  | ended hb hp =>
    obtain ⟨hg, ⟨B, hbody, hB⟩, -, hn⟩ := h
    obtain ⟨t, ht, hr⟩ := hbody.of_poll_done hp
    exact ⟨brief hb hg ht (hB t _ hr), hn _⟩
  | under hb hp ha =>
    obtain ⟨hg, ⟨B, hbody, hB⟩, he, hn⟩ := h
    obtain ⟨t, ht, hr⟩ := hbody.of_poll_waiting hp
    have hstart : B t _ := (Account.after_nil_apply _ _ _).1 hr.now
    refine ⟨brief hb hg ht (hB t _ hstart), hg, ⟨B.after t, hr, fun u r hu => ?_⟩, he, hn⟩
    have hcount := hB _ r hu
    rw [List.countP_append] at hcount
    omega
  | late hb hp ha =>
    obtain ⟨hg, ⟨B, hbody, hB⟩, -, hn⟩ := h
    obtain ⟨t, ht, hr⟩ := hbody.of_poll_waiting hp
    have hstart : B t _ := (Account.after_nil_apply _ _ _).1 hr.now
    exact ⟨brief hb hg ht (hB t _ hstart), hn _⟩
  | left _ ih =>
    obtain ⟨X₁, X₂, hl, hr, hn⟩ := h
    obtain ⟨ht, hl⟩ := ih hl
    exact ⟨ht, X₁, X₂, hl, hr, hn⟩
  | right _ ih =>
    obtain ⟨X₁, X₂, hl, hr, hn⟩ := h
    obtain ⟨ht, hr⟩ := ih hr
    exact ⟨ht, X₁, X₂, hl, hr, hn⟩
  | join =>
    obtain ⟨X₁, X₂, hl, hr, hn, -⟩ := h
    exact ⟨calm ⟨[], S.nil _, rfl⟩, hn _ _⟩

theorem of_evolves {others : σ → σ → Prop} (h : Heeds S p X) (he : Evolves others p s p' s') :
    Heeds S p' X := by
  induction he with
  | refl => exact h
  | move _ hm ih => exact (of_moves hm ih).2
  | other _ _ ih => exact ih

/-- Fibers side by side: the work of any of them that is stopped decides. -/
theorem all {X : β → Prop} {ps : List (Fiber σ β)} (h : ∀ p ∈ ps, Heeds S p X) :
    Heeds S (Fiber.all ps) fun bs => ∃ b ∈ bs, X b := by
  induction ps with
  | nil => trivial
  | cons p rest ih =>
    refine ⟨X, _, h p (by simp), ih fun q hq => h q (by simp [hq]), fun b bs => trivial, ?_⟩
    rintro b bs (hb | ⟨c, hc, hX⟩)
    · exact ⟨b, by simp, hb⟩
    · exact ⟨c, by simp [hc], hX⟩

end Heeds

end Fiber

end WorkflowEngine
