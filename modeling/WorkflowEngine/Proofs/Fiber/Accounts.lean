import Mathlib.Data.List.Forall2
import WorkflowEngine.Proofs.Fiber.Moves
import WorkflowEngine.Proofs.Interleaving

/-!
# Accounts of fibers

What a fiber adds to the history of the shared state, whatever others do meanwhile. An account says
which histories are possible, each with the value at its end, or with none while the fiber goes on.
Main statements: an account that the code of a fiber obeys holds of its turns, its moves and
everything it evolves into.
-/

namespace WorkflowEngine

/-- The histories of a fiber, each with the value at its end if it has ended. -/
abbrev Account (ε α : Type) := List ε → Option α → Prop

namespace Account

variable {ε α : Type}

/-- What is left of an account after a part of the history. -/
def after (A : Account ε α) (t : List ε) : Account ε α := fun u r => A (t ++ u) r

@[simp] theorem after_nil (A : Account ε α) : A.after [] = A := rfl

@[simp] theorem after_after (A : Account ε α) (t u : List ε) :
    (A.after t).after u = A.after (t ++ u) := by
  funext v r
  simp only [after, List.append_assoc]

/-- Nothing is added to the history. -/
def silent : Account ε α := fun t _ => t = []

@[simp] theorem after_nil_apply (A : Account ε α) (t : List ε) (r : Option α) :
    A.after t [] r ↔ A t r := by
  rw [after, List.append_nil]

/-- Accounts side by side, until each has come to its end. -/
def together : List (Account ε α) → Account ε (List α)
  | [] => fun t r => t = [] ∧ ∀ as, r = some as → as = []
  | A :: rest => fun t r => ∃ u p v q, A u p ∧ together rest v q ∧ Interleave u v t ∧
      ∀ as, r = some as → ∃ a bs, p = some a ∧ q = some bs ∧ as = a :: bs

/-- Accounts one after another, each whether or not the one before has come to its end. -/
def inTurn : List (Account ε α) → Account ε (List α)
  | [] => fun t r => t = [] ∧ ∀ as, r = some as → as = []
  | A :: rest => fun t r => ∃ u p v q, A u p ∧ inTurn rest v q ∧ t = u ++ v ∧
      ∀ as, r = some as → ∃ a bs, p = some a ∧ q = some bs ∧ as = a :: bs

end Account

/-- What an act may do to a shared state, and what it adds to the history. -/
structure Discipline (σ ε : Type) where
  allows : σ → List ε → σ → Prop
  nil (s : σ) : allows s [] s
  append {s s' s'' : σ} {t u : List ε} (h : allows s t s') (h' : allows s' u s'') :
    allows s (t ++ u) s''

namespace Fiber

variable {σ ε α β γ : Type}

/-- The value of a fiber that has ended. -/
def value? : Fiber σ α → Option α
  | done a => some a
  | _ => none

/-- Every act of a fiber keeps to a discipline, and what it adds to the history agrees with an
account. When work is stopped, what stopped it may add to the history. -/
def Obeys (d : Discipline σ ε) : {α : Type} → Fiber σ α → Account ε α → Prop
  | _, done a, A => A [] (some a)
  | _, act step next, A =>
    A [] none ∧ ∀ s, ∃ t, d.allows s t (step s).2 ∧ Obeys d (next (step s).1) (A.after t)
  | _, wait _ ready next, A =>
    A [] none ∧ ∀ s b s', ready s = some (b, s') →
      ∃ t, d.allows s t s' ∧ Obeys d (next b) (A.after t)
  | _, @race _ _ β before after _ body next, A =>
    ∃ B : Account ε β, Obeys d body B ∧ ∀ t r, B t r →
      A t none ∧
      (∀ s, (before s || after s) = true →
        ∃ u, d.allows s u s ∧ Obeys d (next none) (A.after (t ++ u))) ∧
      ∀ b, r = some b → Obeys d (next (some b)) (A.after t)
  | _, @both _ _ β γ left right next, A =>
    ∃ (B : Account ε β) (C : Account ε γ), Obeys d left B ∧ Obeys d right C ∧
      ∀ u r v q t, B u r → C v q → Interleave u v t →
        A t none ∧ ∀ b c, r = some b → q = some c → Obeys d (next b c) (A.after t)
  | _, abort _, A => A [] none

variable {d : Discipline σ ε}

namespace Obeys

/-- The history of a fiber that does nothing more. -/
theorem now {p : Fiber σ α} {A : Account ε α} (h : Obeys d p A) : A [] p.value? := by
  induction p with
  | done a => exact h
  | act step next _ => exact h.1
  | wait due ready next _ => exact h.1
  | race before after due body next ihb _ =>
    obtain ⟨B, hb, hA⟩ := h
    exact (hA _ _ (ihb hb)).1
  | both left right next ihl ihr _ =>
    obtain ⟨B, C, hl, hr, hA⟩ := h
    exact (hA _ _ _ _ _ (ihl hl) (ihr hr) .nil).1
  | abort message => exact h

theorem mono {p : Fiber σ α} {A A' : Account ε α} (h : Obeys d p A)
    (hA : ∀ t r, A t r → A' t r) : Obeys d p A' := by
  induction p with
  | done a => exact hA _ _ h
  | act step next ih =>
    refine ⟨hA _ _ h.1, fun s => ?_⟩
    obtain ⟨t, ht, hn⟩ := h.2 s
    exact ⟨t, ht, ih _ hn fun u r => hA _ _⟩
  | wait due ready next ih =>
    refine ⟨hA _ _ h.1, fun s b s' hr => ?_⟩
    obtain ⟨t, ht, hn⟩ := h.2 s b s' hr
    exact ⟨t, ht, ih _ hn fun u r => hA _ _⟩
  | race before after due body next _ ih =>
    obtain ⟨B, hb, hB⟩ := h
    refine ⟨B, hb, fun t r ht => ?_⟩
    obtain ⟨h₀, hn, hs⟩ := hB t r ht
    refine ⟨hA _ _ h₀, fun s hstop => ?_, fun b hb => ih _ (hs b hb) fun u r => hA _ _⟩
    obtain ⟨u, hu, hn⟩ := hn s hstop
    exact ⟨u, hu, ih _ hn fun u r => hA _ _⟩
  | both left right next _ _ ih =>
    obtain ⟨B, C, hl, hr, hB⟩ := h
    refine ⟨B, C, hl, hr, fun u r v q t hu hv hi => ?_⟩
    obtain ⟨h₀, hn⟩ := hB u r v q t hu hv hi
    exact ⟨hA _ _ h₀, fun b c hb hc => ih _ _ (hn b c hb hc) fun u r => hA _ _⟩
  | abort message => exact hA _ _ h

/-- A sequence obeys an account that its first part and then its rest agree with. -/
theorem bind {p : Fiber σ α} {k : α → Fiber σ β} {A : Account ε α} {B : Account ε β}
    (h : Obeys d p A) (hn : ∀ t, A t none → B t none)
    (hs : ∀ t a, A t (some a) → Obeys d (k a) (B.after t)) : Obeys d (p.bind k) B := by
  induction p generalizing B with
  | done a => exact hs [] a h
  | act step next ih =>
    refine ⟨hn _ h.1, fun s => ?_⟩
    obtain ⟨t, ht, hnext⟩ := h.2 s
    refine ⟨t, ht, ih _ hnext (fun u => hn _) fun u a ha => ?_⟩
    simpa using hs _ a ha
  | wait due ready next ih =>
    refine ⟨hn _ h.1, fun s b s' hr => ?_⟩
    obtain ⟨t, ht, hnext⟩ := h.2 s b s' hr
    refine ⟨t, ht, ih _ hnext (fun u => hn _) fun u a ha => ?_⟩
    simpa using hs _ a ha
  | race before after due body next _ ih =>
    obtain ⟨C, hb, hC⟩ := h
    refine ⟨C, hb, fun t r ht => ?_⟩
    obtain ⟨h₀, hnone, hsome⟩ := hC t r ht
    refine ⟨hn _ h₀, fun s hstop => ?_, fun b hb =>
      ih _ (hsome b hb) (fun u => hn _) fun u a ha => ?_⟩
    · obtain ⟨v, hv, hnone⟩ := hnone s hstop
      exact ⟨v, hv, ih _ hnone (fun u => hn _) fun u a ha => by simpa using hs _ a ha⟩
    · simpa using hs _ a ha
  | both left right next _ _ ih =>
    obtain ⟨C, D, hl, hr, hC⟩ := h
    refine ⟨C, D, hl, hr, fun u r v q t hu hv hi => ?_⟩
    obtain ⟨h₀, hnext⟩ := hC u r v q t hu hv hi
    refine ⟨hn _ h₀, fun b c hb hc => ih _ _ (hnext b c hb hc) (fun u => hn _) fun u a ha => ?_⟩
    simpa using hs _ a ha
  | abort message => exact hn _ h

/-! ## Turns and moves -/

/-- What a turn of a fiber does to the shared state, and what is left of its account. -/
def Tells (d : Discipline σ ε) (A : Account ε α) (s : σ) : Progress σ α → Prop
  | .done a s' => ∃ t, d.allows s t s' ∧ A t (some a)
  | .waiting p s' => ∃ t, d.allows s t s' ∧ Obeys d p (A.after t)
  | .aborted _ s' => ∃ t, d.allows s t s' ∧ A t none

private theorem Tells.head {A : Account ε α} {s s' : σ} {t : List ε} (ht : d.allows s t s')
    {r : Progress σ α} (h : Tells d (A.after t) s' r) : Tells d A s r := by
  cases r with
  | done a s'' =>
    obtain ⟨u, hu, hA⟩ := h
    exact ⟨t ++ u, d.append ht hu, hA⟩
  | waiting p s'' =>
    obtain ⟨u, hu, hA⟩ := h
    exact ⟨t ++ u, d.append ht hu, by simpa using hA⟩
  | aborted message s'' =>
    obtain ⟨u, hu, hA⟩ := h
    exact ⟨t ++ u, d.append ht hu, hA⟩

private theorem race_after {before after : σ → Bool} {due : Option Nat} {body' : Fiber σ β}
    {next : Option β → Fiber σ α} {A : Account ε α} {B : Account ε β} {t : List ε}
    (hA : ∀ t r, B t r → A t none ∧
      (∀ s, (before s || after s) = true →
        ∃ u, d.allows s u s ∧ Obeys d (next none) (A.after (t ++ u))) ∧
      ∀ b, r = some b → Obeys d (next (some b)) (A.after t))
    (hb : Obeys d body' (B.after t)) : Obeys d (.race before after due body' next) (A.after t) := by
  refine ⟨B.after t, hb, fun u r hu => ?_⟩
  obtain ⟨h₀, hn, hs⟩ := hA _ r hu
  refine ⟨h₀, fun s hstop => ?_, fun b hb => by simpa using hs b hb⟩
  obtain ⟨v, hv, hn⟩ := hn s hstop
  exact ⟨v, hv, by simpa using hn⟩

/-- A fiber that has ended after a part of the history. -/
theorem of_done {A : Account ε α} {t : List ε} {a : α} (h : A t (some a)) :
    Obeys d (.done a : Fiber σ α) (A.after t) := by
  simpa [Obeys, Account.after] using h

private theorem both_after {left' : Fiber σ β} {right' : Fiber σ γ} {next : β → γ → Fiber σ α}
    {A : Account ε α} {B : Account ε β} {C : Account ε γ} {t u : List ε}
    (hA : ∀ u r v q t, B u r → C v q → Interleave u v t →
      A t none ∧ ∀ b c, r = some b → q = some c → Obeys d (next b c) (A.after t))
    (hl : Obeys d left' (B.after t)) (hr : Obeys d right' (C.after u)) :
    Obeys d (.both left' right' next) (A.after (t ++ u)) := by
  refine ⟨B.after t, C.after u, hl, hr, fun v r w q x hv hw hi => ?_⟩
  have hx : Interleave (t ++ v) (u ++ w) (t ++ u ++ x) := by
    simpa using (hi.prepend_right u).prepend_left t
  obtain ⟨h₀, hn⟩ := hA _ r _ q _ hv hw hx
  exact ⟨h₀, fun b c hb hc => by simpa using hn b c hb hc⟩

/-- A turn keeps to the discipline and to the account. -/
theorem tells_poll {p : Fiber σ α} {A : Account ε α} (h : Obeys d p A) (s : σ) :
    Tells d A s (p.poll s) := by
  induction p generalizing s with
  | done a => exact ⟨[], d.nil s, h⟩
  | act step next ih =>
    obtain ⟨t, ht, hn⟩ := h.2 s
    exact Tells.head ht (ih _ hn _)
  | wait due ready next ih =>
    rw [poll]
    cases hr : ready s with
    | none => exact ⟨[], d.nil s, h⟩
    | some r =>
      obtain ⟨t, ht, hn⟩ := h.2 s r.1 r.2 hr
      exact Tells.head ht (ih _ hn _)
  | race before after due body next ihb ih =>
    obtain ⟨B, hb, hA⟩ := h
    rw [poll]
    cases hbefore : before s with
    | true =>
      obtain ⟨t, ht, hn⟩ := (hA [] _ hb.now).2.1 s (by simp [hbefore])
      exact Tells.head ht (ih _ hn s)
    | false =>
      have hbody := ihb hb s
      cases hp : body.poll s with
      | done b s' =>
        rw [hp] at hbody
        obtain ⟨t, ht, hB⟩ := hbody
        exact Tells.head ht (ih _ ((hA t _ hB).2.2 b rfl) s')
      | waiting body' s' =>
        rw [hp] at hbody
        obtain ⟨t, ht, hB⟩ := hbody
        cases hafter : after s' with
        | true =>
          obtain ⟨u, hu, hn⟩ := (hA _ _ hB.now).2.1 s' (by simp [hafter])
          rw [List.append_nil] at hn
          simpa [hafter] using Tells.head (d.append ht hu) (ih _ hn s')
        | false =>
          have hw : Tells d A s (.waiting (.race before after due body' next) s') :=
            ⟨t, ht, race_after hA hB⟩
          simpa [hafter] using hw
      | aborted message s' =>
        rw [hp] at hbody
        obtain ⟨t, ht, hB⟩ := hbody
        exact ⟨t, ht, (hA t _ hB).1⟩
  | both left right next ihl ihr ih =>
    obtain ⟨B, C, hl, hr, hA⟩ := h
    rw [poll]
    have hleft := ihl hl s
    cases hpl : left.poll s with
    | aborted message s' =>
      rw [hpl] at hleft
      obtain ⟨t, ht, hB⟩ := hleft
      exact ⟨t, ht, (hA _ _ _ _ _ hB hr.now (Interleave.nil_right t)).1⟩
    | done b s' =>
      rw [hpl] at hleft
      obtain ⟨t, ht, hB⟩ := hleft
      dsimp only
      have hright := ihr hr s'
      cases hpr : right.poll s' with
      | aborted message s'' =>
        rw [hpr] at hright
        obtain ⟨u, hu, hC⟩ := hright
        exact ⟨t ++ u, d.append ht hu, (hA _ _ _ _ _ hB hC (Interleave.append t u)).1⟩
      | done c s'' =>
        rw [hpr] at hright
        obtain ⟨u, hu, hC⟩ := hright
        have hn := (hA _ _ _ _ _ hB hC (Interleave.append t u)).2 b c rfl rfl
        exact Tells.head (d.append ht hu) (ih b c hn s'')
      | waiting right' s'' =>
        rw [hpr] at hright
        obtain ⟨u, hu, hC⟩ := hright
        exact ⟨t ++ u, d.append ht hu, both_after hA (of_done hB) hC⟩
    | waiting left' s' =>
      rw [hpl] at hleft
      obtain ⟨t, ht, hB⟩ := hleft
      dsimp only
      have hright := ihr hr s'
      cases hpr : right.poll s' with
      | aborted message s'' =>
        rw [hpr] at hright
        obtain ⟨u, hu, hC⟩ := hright
        have hB₀ := hB.now
        rw [Account.after, List.append_nil] at hB₀
        exact ⟨t ++ u, d.append ht hu, (hA _ _ _ _ _ hB₀ hC (Interleave.append t u)).1⟩
      | done c s'' =>
        rw [hpr] at hright
        obtain ⟨u, hu, hC⟩ := hright
        exact ⟨t ++ u, d.append ht hu, both_after hA hB (of_done hC)⟩
      | waiting right' s'' =>
        rw [hpr] at hright
        obtain ⟨u, hu, hC⟩ := hright
        exact ⟨t ++ u, d.append ht hu, both_after hA hB hC⟩
  | abort message => exact ⟨[], d.nil s, h⟩

theorem of_poll_done {p : Fiber σ α} {A : Account ε α} {s s' : σ} {a : α} (h : Obeys d p A)
    (hp : p.poll s = .done a s') : ∃ t, d.allows s t s' ∧ A t (some a) := by
  simpa [hp, Tells] using h.tells_poll s

theorem of_poll_waiting {p p' : Fiber σ α} {A : Account ε α} {s s' : σ} (h : Obeys d p A)
    (hp : p.poll s = .waiting p' s') : ∃ t, d.allows s t s' ∧ Obeys d p' (A.after t) := by
  simpa [hp, Tells] using h.tells_poll s

theorem of_poll_aborted {p : Fiber σ α} {A : Account ε α} {s s' : σ} {message : String}
    (h : Obeys d p A) (hp : p.poll s = .aborted message s') : ∃ t, d.allows s t s' ∧ A t none := by
  simpa [hp, Tells] using h.tells_poll s

/-- A move keeps to the discipline and to the account. -/
theorem of_moves {p p' : Fiber σ α} {A : Account ε α} {s s' : σ} (hm : Moves p s p' s')
    (h : Obeys d p A) : ∃ t, d.allows s t s' ∧ Obeys d p' (A.after t) := by
  induction hm with
  | act => exact h.2 _
  | wait hr => exact h.2 _ _ _ hr
  | stop hb =>
    obtain ⟨B, hbody, hA⟩ := h
    exact (hA [] _ hbody.now).2.1 _ (by simp [hb])
  | ended hb hp =>
    obtain ⟨B, hbody, hA⟩ := h
    obtain ⟨t, ht, hB⟩ := hbody.of_poll_done hp
    exact ⟨t, ht, (hA t _ hB).2.2 _ rfl⟩
  | under hb hp ha =>
    obtain ⟨B, hbody, hA⟩ := h
    obtain ⟨t, ht, hB⟩ := hbody.of_poll_waiting hp
    exact ⟨t, ht, race_after hA hB⟩
  | late hb hp ha =>
    obtain ⟨B, hbody, hA⟩ := h
    obtain ⟨t, ht, hB⟩ := hbody.of_poll_waiting hp
    obtain ⟨u, hu, hn⟩ := (hA _ _ hB.now).2.1 _ (Bool.or_eq_true_iff.2 (.inr ha))
    exact ⟨t ++ u, d.append ht hu, by simpa using hn⟩
  | left _ ih =>
    obtain ⟨B, C, hl, hr, hA⟩ := h
    obtain ⟨t, ht, hl⟩ := ih hl
    exact ⟨t, ht, by simpa using both_after (u := []) hA hl (by simpa using hr)⟩
  | right _ ih =>
    obtain ⟨B, C, hl, hr, hA⟩ := h
    obtain ⟨u, hu, hr⟩ := ih hr
    exact ⟨u, hu, by simpa using both_after (t := []) hA (by simpa using hl) hr⟩
  | join =>
    obtain ⟨B, C, hl, hr, hA⟩ := h
    exact ⟨[], d.nil _, (hA _ _ _ _ _ hl hr .nil).2 _ _ rfl rfl⟩

theorem of_crashes {p : Fiber σ α} {A : Account ε α} {s s' : σ} (hc : Crashes p s s')
    (h : Obeys d p A) : ∃ t, d.allows s t s' ∧ A t none := by
  induction hc with
  | abort => exact ⟨[], d.nil _, h⟩
  | race hb hp =>
    obtain ⟨B, hbody, hA⟩ := h
    obtain ⟨t, ht, hB⟩ := hbody.of_poll_aborted hp
    exact ⟨t, ht, (hA t _ hB).1⟩
  | left _ ih =>
    obtain ⟨B, C, hl, hr, hA⟩ := h
    obtain ⟨t, ht, hB⟩ := ih hl
    exact ⟨t, ht, (hA _ _ _ _ _ hB hr.now (Interleave.nil_right t)).1⟩
  | right _ ih =>
    obtain ⟨B, C, hl, hr, hA⟩ := h
    obtain ⟨t, ht, hC⟩ := ih hr
    exact ⟨t, ht, (hA _ _ _ _ _ hl.now hC (Interleave.nil_left t)).1⟩

/-- Whatever a fiber evolves into obeys what is left of its account, when its acts only add to the
history and the others leave it as it is. -/
theorem of_evolves {others : σ → σ → Prop} {history : σ → List ε} {P : ε → Prop}
    (hd : ∀ {s t s'}, d.allows s t s' → history s' = history s ++ t ∧ ∀ a ∈ t, P a)
    (ho : ∀ {s s'}, others s s' → history s' = history s) {p p' : Fiber σ α} {A : Account ε α}
    {s s' : σ} (h : Obeys d p A) (he : Evolves others p s p' s') :
    ∃ t, history s' = history s ++ t ∧ (∀ a ∈ t, P a) ∧ Obeys d p' (A.after t) := by
  induction he with
  | refl => exact ⟨[], by simp, by simp, by simpa using h⟩
  | move _ hm ih =>
    obtain ⟨t, ht, hP, hp⟩ := ih
    obtain ⟨u, hu, hp⟩ := of_moves hm hp
    obtain ⟨hu, hP'⟩ := hd hu
    exact ⟨t ++ u, by rw [hu, ht, List.append_assoc],
      fun a ha => (List.mem_append.1 ha).elim (hP a) (hP' a), by simpa using hp⟩
  | other _ hos ih =>
    obtain ⟨t, ht, hP, hp⟩ := ih
    exact ⟨t, (ho hos).trans ht, hP, hp⟩

/-! ## Kinds of fibers -/

theorem update {step : σ → α × σ} {A : Account ε α} (h₀ : A [] none)
    (h : ∀ s, ∃ t, d.allows s t (step s).2 ∧ A t (some (step s).1)) :
    Obeys d (Fiber.update step) A := by
  refine ⟨h₀, fun s => ?_⟩
  obtain ⟨t, ht, hA⟩ := h s
  exact ⟨t, ht, by simpa [Obeys] using hA⟩

theorem await {due : Option Nat} {ready : σ → Option (α × σ)} {A : Account ε α} (h₀ : A [] none)
    (h : ∀ s a s', ready s = some (a, s') → ∃ t, d.allows s t s' ∧ A t (some a)) :
    Obeys d (Fiber.await due ready) A := by
  refine ⟨h₀, fun s a s' hr => ?_⟩
  obtain ⟨t, ht, hA⟩ := h s a s' hr
  exact ⟨t, ht, by simpa [Obeys] using hA⟩

/-- Work that may be stopped, with what its stop adds to the history. -/
theorem stoppable {before after : σ → Bool} {due : Option Nat} {body : Fiber σ β} {B : Account ε β}
    {A : Account ε (Option β)} (hb : Obeys d body B) (h₀ : ∀ t r, B t r → A t none)
    (hn : ∀ t r, B t r → ∀ s, (before s || after s) = true →
      ∃ u, d.allows s u s ∧ A (t ++ u) (some none))
    (hs : ∀ t b, B t (some b) → A t (some (some b))) :
    Obeys d (.race before after due body .done) A := by
  refine ⟨B, hb, fun t r ht => ⟨h₀ t r ht, fun s hstop => ?_, ?_⟩⟩
  · obtain ⟨u, hu, hA⟩ := hn t r ht s hstop
    exact ⟨u, hu, by simpa [Obeys] using hA⟩
  · rintro b rfl
    simpa [Obeys] using hs t b ht

/-- Work that may be stopped in silence. -/
theorem race {before after : σ → Bool} {due : Option Nat} {body : Fiber σ β} {B : Account ε β}
    {A : Account ε (Option β)} (hb : Obeys d body B)
    (hA : ∀ t r, B t r → A t none ∧ A t (some none) ∧ ∀ b, r = some b → A t (some (some b))) :
    Obeys d (.race before after due body .done) A :=
  stoppable hb (fun t r ht => (hA t r ht).1)
    (fun t r ht s _ => ⟨[], d.nil s, by simpa using (hA t r ht).2.1⟩)
    fun t b ht => (hA t _ ht).2.2 b rfl

/-- A sequence whose first part adds nothing to the history. -/
theorem silent_bind {p : Fiber σ α} {k : α → Fiber σ β} {B : Account ε β}
    (h : Obeys d p .silent) (h₀ : B [] none) (hk : ∀ a, Obeys d (k a) B) :
    Obeys d (p.bind k) B :=
  h.bind (fun _ ht => ht ▸ h₀) fun t a ht => by
    obtain rfl : t = [] := ht
    exact hk a

theorem all {ps : List (Fiber σ α)} {As : List (Account ε α)}
    (h : List.Forall₂ (fun p A => Obeys d p A) ps As) :
    Obeys d (Fiber.all ps) (.together As) := by
  induction h with
  | nil => exact ⟨rfl, fun as h => (Option.some.inj h).symm⟩
  | cons hp _ ih =>
    refine ⟨_, _, hp, ih, fun u r v q t hu hv hi => ?_⟩
    refine ⟨⟨u, r, v, q, hu, hv, hi, fun as h => by cases h⟩, ?_⟩
    rintro b c rfl rfl
    exact (Account.after_nil_apply _ _ _).2
      ⟨u, _, v, _, hu, hv, hi, fun as h => ⟨b, c, rfl, rfl, (Option.some.inj h).symm⟩⟩

end Obeys

end Fiber

end WorkflowEngine
