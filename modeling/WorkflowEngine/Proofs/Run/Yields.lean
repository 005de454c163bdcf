import WorkflowEngine.Proofs.Fiber.Turns
import WorkflowEngine.Proofs.Run.Confined
import WorkflowEngine.Proofs.Run.Scenes

/-!
# What fibers yield

A fiber yields a value and a scene when it comes to them from a given scene in whatever turns, as long as
nobody cancels its run and none of its work is stopped or aborted. Work side by side stays in realms apart
from each other. Main statements: an undisturbed turn of such a fiber leaves one that yields the same; and
while it cannot go on, it waits for a later time or for room in its feed.
-/

namespace WorkflowEngine

open Realm

namespace Realm

/-- What two realms within another one come to together. -/
structure Joins (r r₁ r₂ : Realm) (v v₁ v₂ w : Scene) : Prop where
  left : r₁.Agree v₁ w
  right : r₂.Agree v₂ w
  keys : ∀ key, r.sees key → ¬ r₁.writes key → ¬ r₂.writes key →
    v.state.get? key = w.state.get? key
  tallies : ∀ tally, r.tallies tally → ¬ r₁.tallies tally → ¬ r₂.tallies tally →
    v.tallies.get? tally = w.tallies.get? tally

theorem Joins.recast {r r₁ r₂ : Realm} {v v' v₁ v₂ w : Scene} (h : r.Joins r₁ r₂ v v₁ v₂ w)
    (ha : ∀ key, r.sees key → ¬ r₁.writes key → ¬ r₂.writes key →
      v'.state.get? key = v.state.get? key)
    (ht : ∀ tally, r.tallies tally → ¬ r₁.tallies tally → ¬ r₂.tallies tally →
      v'.tallies.get? tally = v.tallies.get? tally) : r.Joins r₁ r₂ v' v₁ v₂ w where
  left := h.left
  right := h.right
  keys key hk h₁ h₂ := (ha key hk h₁ h₂).trans (h.keys key hk h₁ h₂)
  tallies tally hr h₁ h₂ := (ht tally hr h₁ h₂).trans (h.tallies tally hr h₁ h₂)

/-- When both parts have come to their ends, the whole shows what they come to. -/
theorem Joins.agree {r r₁ r₂ : Realm} {v v₁ v₂ w : Scene} (h : r.Joins r₁ r₂ v v₁ v₂ w)
    (h₁ : r₁.Agree v v₁) (h₂ : r₂.Agree v v₂) : r.Agree v w where
  keys key hk := by
    by_cases hw : r₁.writes key
    · exact (h₁.trans h.left).keys key (.inr hw)
    · by_cases hw' : r₂.writes key
      · exact (h₂.trans h.right).keys key (.inr hw')
      · exact h.keys key hk hw hw'
  tallies tally ht := by
    by_cases hw : r₁.tallies tally
    · exact (h₁.trans h.left).tallies tally hw
    · by_cases hw' : r₂.tallies tally
      · exact (h₂.trans h.right).tallies tally hw'
      · exact h.tallies tally ht hw hw'

theorem Frame.mono {r r' : Realm} {ctx : RunContext} {e e' : Engine} (h : r.Frame ctx e e')
    (hr : r.Under r') : r'.Frame ctx e e' where
  copy := h.copy
  keys key hk := h.keys key fun hw => hk (hr.writes key hw)
  tallies tally ht := h.tallies tally fun hw => ht (hr.tallies tally hw)
  now := h.now
  cancelled := h.cancelled

/-- What an act within a realm leaves alone. Every feed keeps its capacity and is as open as before. -/
structure Tread (r : Realm) (ctx : RunContext) (e e' : Engine) : Prop extends r.Frame ctx e e' where
  rooms : ∀ feed, (e'.feeds.get feed).capacity = (e.feeds.get feed).capacity
  closed : ∀ feed, (e'.feeds.get feed).closed = (e.feeds.get feed).closed

namespace Tread

variable {r r' : Realm} {ctx : RunContext} {e e' e'' : Engine}

theorem refl (r : Realm) (ctx : RunContext) (e : Engine) : r.Tread ctx e e :=
  ⟨.refl r ctx e, fun _ => rfl, fun _ => rfl⟩

theorem trans (h : r.Tread ctx e e') (h' : r.Tread ctx e' e'') : r.Tread ctx e e'' :=
  ⟨h.toFrame.trans h'.toFrame, fun feed => (h'.rooms feed).trans (h.rooms feed),
    fun feed => (h'.closed feed).trans (h.closed feed)⟩

/-- An act that leaves the feeds alone. -/
theorem of_frame (h : r.Frame ctx e e') (hf : e'.feeds = e.feeds) : r.Tread ctx e e' :=
  ⟨h, fun _ => by rw [hf], fun _ => by rw [hf]⟩

theorem mono (h : r.Tread ctx e e') (hr : r.Under r') : r'.Tread ctx e e' :=
  ⟨h.toFrame.mono hr, h.rooms, h.closed⟩

end Tread

end Realm

/-- The feed of a run is open and has no room. -/
def RunContext.Blocked (ctx : RunContext) (e : Engine) : Prop :=
  ∃ feed, ctx.feed = some feed ∧ (e.feeds.get feed).closed = false ∧
    (e.feeds.get feed).capacity ≤ (e.feeds.get feed).queue.length

namespace Fiber

variable {α β : Type} {ctx : RunContext}

/-- A fiber comes to a value of a kind and to a scene, when its run is not cancelled and none of its work is
stopped or aborted. -/
def Yields (ctx : RunContext) : {α : Type} → Realm → Fiber Engine α → Scene → (α → Prop) → Scene → Prop
  | _, r, done a, v, V, w => V a ∧ r.Agree v w
  | _, r, act step next, v, V, w => ∀ e : Engine, r.Shows ctx e v →
    e.isCancelled ctx.token = false → (step e).2.isCancelled ctx.token = false →
      r.Tread ctx e (step e).2 ∧
        ∃ v', r.Shows ctx (step e).2 v' ∧ Yields ctx r (next (step e).1) v' V w
  | _, r, wait due ready next, v, V, w =>
    (∀ e, ready e = none → (∀ d, due = some d → e.now < d) ∧ (due.isSome ∨ ctx.Blocked e)) ∧
      ∀ (e : Engine) b e', ready e = some (b, e') → e.isCancelled ctx.token = false →
        (∀ r' : Realm, r'.Tread ctx e e') ∧ Yields ctx r (next b) v V w
  | _, r, @race _ _ β _ after due body next, v, V, w =>
    (∀ e, after e = false → ∀ d, due = some d → e.now < d) ∧
      ∃ (V' : β → Prop) (v' : Scene), Yields ctx r body v V' v' ∧
        ∀ b, V' b → Yields ctx r (next (some b)) v' V w
  | _, r, @both _ _ β γ left right next, v, V, w =>
    ∃ (r₁ r₂ : Realm) (V₁ : β → Prop) (V₂ : γ → Prop) (v₁ v₂ v' : Scene),
      r₁.Under r ∧ r₂.Under r ∧ r₁.Apart r₂ ∧ Yields ctx r₁ left v V₁ v₁ ∧
        Yields ctx r₂ right v V₂ v₂ ∧ r.Joins r₁ r₂ v v₁ v₂ v' ∧
        ∀ b c, V₁ b → V₂ c → Yields ctx r (next b c) v' V w
  | _, _, abort _, _, _, _ => True

/-- How a fiber stands after a turn, and what it yields then. -/
inductive Fares (ctx : RunContext) (r : Realm) (e : Engine) (V : α → Prop) (w : Scene) :
    Progress Engine α → Prop
  | done {a : α} {f : Engine} (hf : r.Tread ctx e f) (ha : V a) (hs : r.Shows ctx f w) :
      Fares ctx r e V w (.done a f)
  | waiting {p : Fiber Engine α} {f : Engine} {v : Scene} (hf : r.Tread ctx e f)
      (hs : r.Shows ctx f v) (hp : Yields ctx r p v V w) : Fares ctx r e V w (.waiting p f)

theorem Fares.after {r : Realm} {e f : Engine} {V : α → Prop} {w : Scene} {q : Progress Engine α}
    (h : Fares ctx r f V w q) (hf : r.Tread ctx e f) : Fares ctx r e V w q := by
  cases h with
  | done hf' ha hs => exact .done (hf.trans hf') ha hs
  | waiting hf' hs hp => exact .waiting (hf.trans hf') hs hp

/-- What is left after a turn yields the same. -/
private theorem Fares.yields {r : Realm} {e f : Engine} {V : α → Prop} {w : Scene}
    {q : Progress Engine α} {p : Fiber Engine α} (h : Fares ctx r e V w q) (hl : Leaves q p f) :
    r.Tread ctx e f ∧ ∃ v, r.Shows ctx f v ∧ Yields ctx r p v V w := by
  cases h with
  | done hf ha hs =>
    cases hl
    exact ⟨hf, w, hs, ha, .refl r w⟩
  | waiting hf hs hp =>
    cases hl
    exact ⟨hf, _, hs, hp⟩

private theorem Fares.leaves {r : Realm} {e : Engine} {V : α → Prop} {w : Scene}
    {q : Progress Engine α} (h : Fares ctx r e V w q) : ∃ p f, Leaves q p f := by
  cases h with
  | done => exact ⟨_, _, .done⟩
  | waiting => exact ⟨_, _, .waiting⟩

namespace Yields

variable {r : Realm} {p : Fiber Engine α} {v v' w : Scene} {V : α → Prop} {e : Engine}

/-- What a fiber comes to depends on its realm only. -/
theorem recast (h : Yields ctx r p v V w) (ha : r.Agree v v') : Yields ctx r p v' V w := by
  induction p generalizing r v v' w with
  | done a => exact ⟨h.1, ha.symm.trans h.2⟩
  | act step next ih => exact fun e he => h e (he.recast ha.symm)
  | wait due ready next ih =>
    refine ⟨h.1, fun e b e' hr hc => ?_⟩
    obtain ⟨hf, hn⟩ := h.2 e b e' hr hc
    exact ⟨hf, ih b hn ha⟩
  | race before after due body next ihb ih =>
    obtain ⟨hb, V', u, hbody, hn⟩ := h
    exact ⟨hb, V', u, ihb hbody ha, hn⟩
  | both left right next ihl ihr ih =>
    obtain ⟨r₁, r₂, V₁, V₂, v₁, v₂, u, h₁, h₂, hapart, hl, hr, hj, hn⟩ := h
    refine ⟨r₁, r₂, V₁, V₂, v₁, v₂, u, h₁, h₂, hapart, ihl hl (ha.mono h₁), ihr hr (ha.mono h₂), ?_, hn⟩
    exact hj.recast (fun key hk _ _ => (ha.keys key hk).symm) fun t ht _ _ => (ha.tallies t ht).symm
  | abort message => exact h

theorem bind {k : α → Fiber Engine β} {V' : β → Prop} {w' : Scene} (h : Yields ctx r p v V w)
    (hk : ∀ a, V a → Yields ctx r (k a) w V' w') : Yields ctx r (p.bind k) v V' w' := by
  induction p generalizing v with
  | done a => exact (hk a h.1).recast h.2.symm
  | act step next ih =>
    intro e he hc hc'
    obtain ⟨hf, u, hs, hn⟩ := h e he hc hc'
    exact ⟨hf, u, hs, ih _ hn hk⟩
  | wait due ready next ih =>
    refine ⟨h.1, fun e b e' hr hc => ?_⟩
    obtain ⟨hf, hn⟩ := h.2 e b e' hr hc
    exact ⟨hf, ih b hn hk⟩
  | race before after due body next _ ih =>
    obtain ⟨hb, V₁, u, hbody, hn⟩ := h
    exact ⟨hb, V₁, u, hbody, fun b hV => ih _ (hn b hV) hk⟩
  | both left right next _ _ ih =>
    obtain ⟨r₁, r₂, V₁, V₂, v₁, v₂, u, h₁, h₂, hapart, hl, hr, hj, hn⟩ := h
    exact ⟨r₁, r₂, V₁, V₂, v₁, v₂, u, h₁, h₂, hapart, hl, hr, hj, fun b c hb hc => ih b c (hn b c hb hc) hk⟩
  | abort message => trivial

theorem imp {V' : α → Prop} (h : Yields ctx r p v V w) (hV : ∀ a, V a → V' a) :
    Yields ctx r p v V' w := by
  have hp : p = p.bind done := (bind_done p).symm
  rw [hp]
  exact h.bind fun a ha => ⟨hV a ha, .refl r w⟩

/-- Every undisturbed turn leaves a fiber that yields the same. -/
theorem poll (h : Yields ctx r p v V w) (he : r.Shows ctx e v)
    (hc : e.isCancelled ctx.token = false)
    (ho : p.disturbed (fun e => e.isCancelled ctx.token) e = false) :
    Fares ctx r e V w (p.poll e) := by
  induction p generalizing r v w e with
  | done a => exact .done (.refl r ctx e) h.1 (he.recast h.2)
  | act step next ih =>
    obtain ⟨hc', ho⟩ := Bool.or_eq_false_iff.1 ho
    obtain ⟨hf, u, hs, hn⟩ := h e he hc hc'
    exact (ih _ hn hs hc' ho).after hf
  | wait due ready next ih =>
    rw [Fiber.poll]
    rw [disturbed] at ho
    cases hr : ready e with
    | none => exact .waiting (.refl r ctx e) he h
    | some q =>
      obtain ⟨hf, hn⟩ := h.2 e q.1 q.2 hr hc
      rw [hr] at ho
      have hshows : r.Shows ctx q.2 v := he.same ((hf nothing).toFrame.same (apart_nothing r).symm)
      obtain ⟨hc', ho⟩ := Bool.or_eq_false_iff.1 ho
      exact (ih q.1 hn hshows hc' ho).after (hf r)
  | race before after due body next ihb ih =>
    obtain ⟨hb, V', u, hbody, hn⟩ := h
    simp only [disturbed, Bool.or_eq_false_iff] at ho
    obtain ⟨hbefore, ho⟩ := ho
    simp only [Fiber.poll, hbefore, Bool.false_eq_true, if_false]
    have hfares := ihb hbody he hc ho.1
    generalize body.poll e = q at hfares ho
    cases hfares with
    | done hf hb' hs => exact (ih _ (hn _ hb') hs (hf.cancelled.trans hc) ho.2).after hf
    | waiting hf hs hp =>
      dsimp only at ho ⊢
      rw [if_neg (by simp [ho.2])]
      exact .waiting hf hs ⟨hb, V', u, hp, hn⟩
  | both left right next ihl ihr ih =>
    obtain ⟨r₁, r₂, V₁, V₂, v₁, v₂, u, h₁, h₂, hapart, hl, hr, hj, hn⟩ := h
    rw [Fiber.poll]
    simp only [disturbed, Bool.or_eq_false_iff] at ho
    obtain ⟨hol, ho⟩ := ho
    have hleft := ihl hl (he.mono h₁) hc hol
    generalize left.poll e = ql at hleft ho
    obtain ⟨left', f, hql⟩ := hleft.leaves
    obtain ⟨hf, u₁, hs₁, hl'⟩ := hleft.yields hql
    have hcf : f.isCancelled ctx.token = false := hf.cancelled.trans hc
    have hshows₂ : r₂.Shows ctx f v := (he.mono h₂).same (hf.same hapart)
    have hor : right.disturbed (fun e => e.isCancelled ctx.token) f = false := by
      cases hql with
      | done => exact (Bool.or_eq_false_iff.1 ho).1
      | waiting => exact ho
    have hright := ihr hr hshows₂ hcf hor
    obtain ⟨right', g, hqr⟩ := hright.leaves
    obtain ⟨hg, u₂, hs₂, hr'⟩ := hright.yields hqr
    have hframe : r.Tread ctx e g := (hf.mono h₁).trans (hg.mono h₂)
    have hs₁' : r₁.Shows ctx g u₁ := hs₁.same (hg.same hapart.symm)
    have hl' := hl'.recast hs₁'.agree.symm
    have hr' := hr'.recast hs₂.agree.symm
    have hj' : r.Joins r₁ r₂ (g.scene ctx) v₁ v₂ u := by
      refine hj.recast (fun key hk hk₁ hk₂ => ?_) fun t ht ht₁ ht₂ => ?_
      · exact ((hg.keys key hk₂).trans (hf.keys key hk₁)).trans (he.agree.keys key hk)
      · exact ((hg.tallies t ht₂).trans (hf.tallies t ht₁)).trans (he.agree.tallies t ht)
    have hwaits : Fares ctx r e V w (.waiting (.both left' right' next) g) :=
      .waiting hframe ⟨hs₁'.copy, .refl r _⟩
        ⟨r₁, r₂, V₁, V₂, v₁, v₂, u, h₁, h₂, hapart, hl', hr', hj', hn⟩
    cases hql with
    | waiting =>
      dsimp only
      generalize right.poll f = qr at hqr
      cases hqr <;> exact hwaits
    | done =>
      dsimp only at ho ⊢
      generalize right.poll f = qr at hqr ho
      cases hqr with
      | waiting => exact hwaits
      | done =>
        have hshows : r.Shows ctx g u := ⟨hs₁'.copy, hj'.agree hl'.2 hr'.2⟩
        have hog := (Bool.or_eq_false_iff.1 ho).2
        exact (ih _ _ (hn _ _ hl'.1 hr'.1) hshows (hg.cancelled.trans hcf) hog).after hframe
  | abort message => cases ho

/-- The work under a race is not done while the race cannot go on. -/
private theorem body_not_done {β : Type} {before after : Engine → Bool} {due : Option Nat}
    {body : Fiber Engine β} {next : Option β → Fiber Engine α}
    (hgo : (race before after due body next).canGoOn e = false) :
    body.isDone = false ∧ body.canGoOn e = false ∧ after e = false := by
  simp only [canGoOn, Bool.or_eq_false_iff] at hgo
  refine ⟨?_, hgo.1.2, hgo.2⟩
  cases body with
  | done b => cases hgo.1.2
  | act | wait | race | both | abort => rfl

/-- While it cannot go on, a fiber waits for a time or for room in its feed. -/
theorem waits (h : Yields ctx r p v V w) (hd : p.isDone = false) (hgo : p.canGoOn e = false) :
    p.due.isSome ∨ ctx.Blocked e := by
  induction p generalizing r v w with
  | done a => cases hd
  | act step next | abort message => cases hgo
  | wait due ready next => exact (h.1 e (by simpa [canGoOn] using hgo)).2
  | race before after due body next ihb =>
    obtain ⟨-, V', u, hbody, -⟩ := h
    obtain ⟨hdone, hbodygo, -⟩ := body_not_done hgo
    refine (ihb hbody hdone hbodygo).imp_left fun hdue => ?_
    rw [Fiber.due, isSome_earlier, hdue, Bool.or_true]
  | both left right next ihl ihr =>
    obtain ⟨r₁, r₂, V₁, V₂, v₁, v₂, u, -, -, -, hl, hr, -⟩ := h
    simp only [canGoOn, Bool.or_eq_false_iff, Bool.and_eq_false_iff] at hgo
    obtain ⟨⟨hdone, hleft⟩, hright⟩ := hgo
    rw [Fiber.due, isSome_earlier, Bool.or_eq_true]
    cases hdl : left.isDone with
    | false => exact (ihl hl hdl (by simpa [hdl] using hleft)).imp_left .inl
    | true =>
      cases hdr : right.isDone with
      | false => exact (ihr hr hdr (by simpa [hdr] using hright)).imp_left .inr
      | true => simp [hdl, hdr] at hdone

/-- While it cannot go on, the time it waits for has not come. -/
theorem now_lt (h : Yields ctx r p v V w) (hgo : p.canGoOn e = false) {d : Nat}
    (hd : p.due = some d) : e.now < d := by
  induction p generalizing r v w d with
  | done a | act step next | abort message => cases hd
  | wait due ready next => exact (h.1 e (by simpa [canGoOn] using hgo)).1 d hd
  | race before after due body next ihb =>
    obtain ⟨ht, V', u, hbody, -⟩ := h
    obtain ⟨-, hbodygo, hafter⟩ := body_not_done hgo
    exact lt_of_earlier (ht e hafter) (fun d => ihb hbody hbodygo) hd
  | both left right next ihl ihr =>
    obtain ⟨r₁, r₂, V₁, V₂, v₁, v₂, u, -, -, -, hl, hr, -⟩ := h
    simp only [canGoOn, Bool.or_eq_false_iff, Bool.and_eq_false_iff] at hgo
    obtain ⟨⟨-, hleft⟩, hright⟩ := hgo
    have hside {β : Type} {q : Fiber Engine β} (hq : (!q.isDone) = false ∨ q.canGoOn e = false)
        (ih : q.canGoOn e = false → ∀ d, q.due = some d → e.now < d) (d : Nat)
        (hdue : q.due = some d) : e.now < d := by
      rcases hq with hdone | hgo
      · cases q with
        | done b => cases hdue
        | act | wait | race | both | abort => cases hdone
      · exact ih hgo d hdue
    exact lt_of_earlier (hside hleft fun hg d => ihl hl hg) (hside hright fun hg d => ihr hr hg) hd

end Yields

end Fiber

end WorkflowEngine
