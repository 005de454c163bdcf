import WorkflowEngine.Proofs.Run.Elapsing
import WorkflowEngine.Proofs.Run.Liveliness
import WorkflowEngine.Proofs.Run.Realms

/-!
# Alike fibers

Two fibers are alike when they do the same within a realm, the one some time after the other. A fiber that
is alike to itself depends on nothing but its realm and on how much time went by. Main statements: alike
fibers that run to their ends while others spare their realm end with the same value and leave the realm in
the same state, however their turns fall; and one that does not abort comes to its end.
-/

namespace WorkflowEngine

namespace Realm

variable {r r' : Realm} {ctx : RunContext} {lag : Nat} {e e' f f' g g' : Engine}

/-- Two engines in which a run that goes on finds the same, in the one some time after the other. -/
structure Matched (r : Realm) (ctx : RunContext) (lag : Nat) (e e' : Engine) : Prop where
  same : r.Same ctx e e'
  now : e'.now = e.now + lag
  left : e.isCancelled ctx.token = false
  right : e'.isCancelled ctx.token = false

theorem Matched.self (h : e.isCancelled ctx.token = false) : r.Matched ctx 0 e e :=
  ⟨.refl r ctx e, rfl, h, h⟩

/-- Two acts within a realm that come to the same. -/
structure Tandem (r : Realm) (ctx : RunContext) (e e' f f' : Engine) : Prop where
  left : r.Frame ctx e f
  right : r.Frame ctx e' f'
  same : r.Same ctx f f'

namespace Tandem

theorem refl (h : r.Same ctx e e') : r.Tandem ctx e e' e e' := ⟨.refl r ctx e, .refl r ctx e', h⟩

theorem trans (h : r.Tandem ctx e e' f f') (h' : r.Tandem ctx f f' g g') :
    r.Tandem ctx e e' g g' :=
  ⟨h.left.trans h'.left, h.right.trans h'.right, h'.same⟩

theorem matched (h : r.Tandem ctx e e' f f') (hm : r.Matched ctx lag e e') :
    r.Matched ctx lag f f' where
  same := h.same
  now := by rw [h.left.now, h.right.now, hm.now]
  left := h.left.cancelled.trans hm.left
  right := h.right.cancelled.trans hm.right

end Tandem

end Realm

namespace Fiber

variable {α β γ : Type} {r r' : Realm} {ctx : RunContext} {lag : Nat}

/-- The wait until a time. -/
def elapsed (due : Nat) (e : Engine) : Option (Unit × Engine) :=
  if due ≤ e.now then some ((), e) else none

/-- Two fibers that do the same within a realm, the second one some time after the first. -/
inductive Alike (r : Realm) (ctx : RunContext) (lag : Nat) :
    {α : Type} → Fiber Engine α → Fiber Engine α → Prop
  | done {α : Type} (a : α) : Alike r ctx lag (.done a) (.done a)
  | act {α β : Type} {step step' : Engine → β × Engine} {next next' : β → Fiber Engine α}
      (h : ∀ e e', r.Matched ctx lag e e' → r.Tandem ctx e e' (step e).2 (step' e').2)
      (hn : ∀ e e', r.Matched ctx lag e e' →
        Alike r ctx lag (next (step e).1) (next' (step' e').1)) :
      Alike r ctx lag (.act step next) (.act step' next')
  | wait {α : Type} {due : Nat} {next next' : Unit → Fiber Engine α}
      (hn : Alike r ctx lag (next ()) (next' ())) :
      Alike r ctx lag (.wait (some due) (elapsed due) next)
        (.wait (some (due + lag)) (elapsed (due + lag)) next')
  | limit {α β : Type} {due : Nat} {body body' : Fiber Engine β}
      {next next' : Option β → Fiber Engine α} (hb : Alike r ctx lag body body')
      (hn : ∀ q, Alike r ctx lag (next q) (next' q)) :
      Alike r ctx lag
        (.race (fun _ => false) (fun e => due ≤ e.now) (some due) body next)
        (.race (fun _ => false) (fun e => due + lag ≤ e.now) (some (due + lag)) body' next')
  | guarded {α β : Type} {body body' : Fiber Engine β} {next next' : Option β → Fiber Engine α}
      (hb : Alike r ctx lag body body') (hn : ∀ q, Alike r ctx lag (next q) (next' q)) :
      Alike r ctx lag
        (.race (fun e => e.isCancelled ctx.token) (fun _ => false) none body next)
        (.race (fun e => e.isCancelled ctx.token) (fun _ => false) none body' next')
  | both {α β γ : Type} {left left' : Fiber Engine β} {right right' : Fiber Engine γ}
      {next next' : β → γ → Fiber Engine α} (hl : Alike r ctx lag left left')
      (hr : Alike r ctx lag right right') (hn : ∀ b c, Alike r ctx lag (next b c) (next' b c)) :
      Alike r ctx lag (.both left right next) (.both left' right' next')
  | abort {α : Type} (message : String) :
      Alike r ctx lag (.abort message : Fiber Engine α) (.abort message)

/-- A fiber that depends on its realm and on how much time went by only. -/
abbrev Confined (r : Realm) (ctx : RunContext) (p : Fiber Engine α) : Prop :=
  ∀ lag, Alike r ctx lag p p

/-- How two alike fibers stand after their turns. -/
inductive Abreast (r : Realm) (ctx : RunContext) (lag : Nat) (e e' : Engine) :
    Progress Engine α → Progress Engine α → Prop
  | done {a : α} {f f' : Engine} (h : r.Tandem ctx e e' f f') :
      Abreast r ctx lag e e' (.done a f) (.done a f')
  | waiting {p p' : Fiber Engine α} {f f' : Engine} (hp : Alike r ctx lag p p')
      (h : r.Tandem ctx e e' f f') : Abreast r ctx lag e e' (.waiting p f) (.waiting p' f')
  | aborted {message : String} {f f' : Engine} (h : r.Tandem ctx e e' f f') :
      Abreast r ctx lag e e' (.aborted message f) (.aborted message f')

theorem Abreast.after {e e' f f' : Engine} {q q' : Progress Engine α}
    (h : Abreast r ctx lag f f' q q') (ht : r.Tandem ctx e e' f f') :
    Abreast r ctx lag e e' q q' := by
  cases h with
  | done h => exact .done (ht.trans h)
  | waiting hp h => exact .waiting hp (ht.trans h)
  | aborted h => exact .aborted (ht.trans h)

namespace Alike

variable {p p' : Fiber Engine α} {e e' f f' : Engine}

theorem bind {k k' : α → Fiber Engine β} (h : Alike r ctx lag p p')
    (hk : ∀ a, Alike r ctx lag (k a) (k' a)) : Alike r ctx lag (p.bind k) (p'.bind k') := by
  induction h with
  | done a => exact hk a
  | act ht _ ih => exact .act ht fun e e' hm => ih e e' hm hk
  | wait _ ih => exact .wait (ih hk)
  | limit hb _ _ ih => exact .limit hb fun q => ih q hk
  | guarded hb _ _ ih => exact .guarded hb fun q => ih q hk
  | both hl hr _ _ _ ih => exact .both hl hr fun b c => ih b c hk
  | abort message => exact .abort message

/-- Alike fibers take alike turns. -/
theorem poll (h : Alike r ctx lag p p') (hm : r.Matched ctx lag e e') :
    Abreast r ctx lag e e' (p.poll e) (p'.poll e') := by
  induction h generalizing e e' with
  | done a => exact .done (.refl hm.same)
  | act ht _ ih => exact (ih e e' hm ((ht e e' hm).matched hm)).after (ht e e' hm)
  | wait hn ih =>
    rename_i due next next'
    have hdue : due + lag ≤ e'.now ↔ due ≤ e.now := by rw [hm.now]; omega
    by_cases h : due ≤ e.now
    · simpa [Fiber.poll, elapsed, h, hdue] using ih hm
    · have hw : Abreast r ctx lag e e' (.waiting (.wait (some due) (elapsed due) next) e) _ :=
        .waiting (.wait hn) (.refl hm.same)
      simpa [Fiber.poll, elapsed, h, hdue] using hw
  | limit hb hn ihb ih =>
    rename_i due body body' next next'
    rw [Fiber.poll, Fiber.poll, if_neg Bool.false_ne_true, if_neg Bool.false_ne_true]
    have hbody := ihb hm
    generalize body.poll e = q at hbody
    generalize body'.poll e' = q' at hbody
    cases hbody with
    | done ht => exact (ih _ (ht.matched hm)).after ht
    | aborted ht => exact .aborted ht
    | @waiting body body' f f' hb ht =>
      have hdue : due + lag ≤ f'.now ↔ due ≤ f.now := by rw [(ht.matched hm).now]; omega
      simp only [hdue]
      split
      · exact (ih none (ht.matched hm)).after ht
      · exact .waiting (.limit hb hn) ht
  | guarded hb hn ihb ih =>
    rename_i body body' next next'
    simp only [Fiber.poll, hm.left, hm.right, Bool.false_eq_true, if_false]
    have hbody := ihb hm
    generalize body.poll e = q at hbody
    generalize body'.poll e' = q' at hbody
    cases hbody with
    | done ht => exact (ih _ (ht.matched hm)).after ht
    | aborted ht => exact .aborted ht
    | waiting hb ht => exact .waiting (.guarded hb hn) ht
  | both hl hr hn ihl ihr ih =>
    rename_i left left' right right' next next'
    rw [Fiber.poll, Fiber.poll]
    have hleft := ihl hm
    generalize left.poll e = q at hleft
    generalize left'.poll e' = q' at hleft
    cases hleft with
    | aborted ht => exact .aborted ht
    | done ht =>
      rename_i b f f'
      have hright := ihr (ht.matched hm)
      dsimp only
      generalize right.poll f = u at hright
      generalize right'.poll f' = u' at hright
      cases hright with
      | aborted hu => exact .aborted (ht.trans hu)
      | done hu => exact (ih _ _ (hu.matched (ht.matched hm))).after (ht.trans hu)
      | waiting hr hu => exact .waiting (.both (.done b) hr hn) (ht.trans hu)
    | waiting hl ht =>
      rename_i left left' f f'
      have hright := ihr (ht.matched hm)
      dsimp only
      generalize right.poll f = u at hright
      generalize right'.poll f' = u' at hright
      cases hright with
      | aborted hu => exact .aborted (ht.trans hu)
      | done hu => exact .waiting (.both hl (.done _) hn) (ht.trans hu)
      | waiting hr hu => exact .waiting (.both hl hr hn) (ht.trans hu)
  | abort message => exact .aborted (.refl hm.same)

/-! ## Waking up -/

theorem isDone_eq (h : Alike r ctx lag p p') : p'.isDone = p.isDone := by
  cases h <;> rfl

theorem isReady_eq (h : Alike r ctx lag p p') : p'.isReady = p.isReady := by
  induction h with
  | done a | act | wait | abort message => rfl
  | limit _ _ ihb | guarded _ _ ihb => exact ihb
  | both hl hr _ ihl ihr => simp only [isReady, hl.isDone_eq, hr.isDone_eq, ihl, ihr]

end Alike

private theorem earlier_map_add (a b : Option Nat) (lag : Nat) :
    earlier (a.map (· + lag)) (b.map (· + lag)) = (earlier a b).map (· + lag) := by
  cases a with
  | none => rfl
  | some a =>
    cases b with
    | none => rfl
    | some b => simp [earlier, Nat.add_min_add_right]

private theorem any_earlier (a b : Option Nat) (now : Nat) :
    (earlier a b).any (· ≤ now) = (a.any (· ≤ now) || b.any (· ≤ now)) := by
  cases a with
  | none => rfl
  | some a =>
    cases b with
    | none => simp [earlier]
    | some b =>
      rw [Bool.eq_iff_iff]
      simp only [earlier, Option.any_some, Bool.or_eq_true, decide_eq_true_eq]
      omega

theorem isSome_earlier (a b : Option Nat) :
    (earlier a b).isSome = (a.isSome || b.isSome) := by
  cases a <;> cases b <;> rfl

/-- A time that comes before two others comes before the earlier one. -/
theorem lt_of_earlier {n d : Nat} {a b : Option Nat} (ha : ∀ d, a = some d → n < d)
    (hb : ∀ d, b = some d → n < d) (h : earlier a b = some d) : n < d := by
  cases a with
  | none => exact hb d h
  | some a =>
    cases b with
    | none => exact ha d h
    | some b =>
      cases h
      exact Nat.lt_min.2 ⟨ha a rfl, hb b rfl⟩

/-- A fiber that goes on at once or at its due time, as long as its run is not cancelled. -/
structure Timed (ctx : RunContext) (p : Fiber Engine α) : Prop where
  canGoOn : ∀ e : Engine, e.isCancelled ctx.token = false →
    p.canGoOn e = (p.isReady || p.due.any (· ≤ e.now))
  due : p.isDone = false → p.isReady = false → p.due.isSome

namespace Timed

variable {p : Fiber Engine α}

private theorem sleep (due : Nat) (next : Unit → Fiber Engine α) :
    Timed ctx (.wait (some due) (elapsed due) next) where
  canGoOn e _ := by
    by_cases h : due ≤ e.now <;> simp [Fiber.canGoOn, isReady, Fiber.due, elapsed, h]
  due _ _ := rfl

private theorem limit {body : Fiber Engine β} (h : Timed ctx body) (due : Nat)
    (next : Option β → Fiber Engine α) :
    Timed ctx (.race (fun _ => false) (fun e => due ≤ e.now) (some due) body next) where
  canGoOn e he := by
    simp only [Fiber.canGoOn, isReady, Fiber.due, any_earlier, h.canGoOn e he]
    cases body.isReady <;> cases body.due.any (· ≤ e.now) <;> simp
  due _ _ := by simp [Fiber.due, isSome_earlier]

private theorem guarded {body : Fiber Engine β} (h : Timed ctx body)
    (next : Option β → Fiber Engine α) :
    Timed ctx (.race (fun e => e.isCancelled ctx.token) (fun _ => false) none body next) where
  canGoOn e he := by simp [Fiber.canGoOn, isReady, Fiber.due, earlier, he, h.canGoOn e he]
  due _ hr := by
    have hbody : body.isReady = false := hr
    refine h.due ?_ hbody
    cases body with
    | done b => cases hbody
    | act | wait | race | both | abort => rfl

private theorem both {left : Fiber Engine β} {right : Fiber Engine γ} (hl : Timed ctx left)
    (hr : Timed ctx right) (next : β → γ → Fiber Engine α) :
    Timed ctx (.both left right next) where
  canGoOn e he := by
    have hdue {δ : Type} (q : Fiber Engine δ) (h : q.isDone = true) : q.due = none := by
      cases q with
      | done d => rfl
      | act | wait | race | both | abort => cases h
    simp only [Fiber.canGoOn, isReady, Fiber.due, any_earlier, hl.canGoOn e he, hr.canGoOn e he]
    cases hdl : left.isDone <;> cases hdr : right.isDone <;>
      simp [hdue, hdl, hdr, Bool.or_assoc, Bool.or_left_comm]
  due _ h := by
    simp only [isReady, Bool.or_eq_false_iff, Bool.and_eq_false_iff] at h
    obtain ⟨⟨hdone, hleft⟩, hright⟩ := h
    simp only [Fiber.due, isSome_earlier, Bool.or_eq_true]
    cases hdl : left.isDone with
    | false => exact .inl (hl.due hdl (by simpa [hdl] using hleft))
    | true =>
      cases hdr : right.isDone with
      | false => exact .inr (hr.due hdr (by simpa [hdr] using hright))
      | true => simp [hdl, hdr] at hdone

/-- A fiber that cannot go on yet waits for its due time. -/
theorem exists_due (h : Timed ctx p) {e : Engine} (he : e.isCancelled ctx.token = false)
    (hdone : p.isDone = false) (hgo : p.canGoOn e = false) :
    ∃ due, p.due = some due ∧ p.isReady = false ∧ e.now < due := by
  rw [h.canGoOn e he, Bool.or_eq_false_iff] at hgo
  obtain ⟨due, hdue⟩ := Option.isSome_iff_exists.1 (h.due hdone hgo.1)
  refine ⟨due, hdue, hgo.1, ?_⟩
  simpa [hdue] using hgo.2

theorem wakes_of_canGoOn (h : Timed ctx p) {e : Engine} (he : e.isCancelled ctx.token = false)
    (hgo : p.canGoOn e = true) : p.wakes e.now = e.now := by
  rw [h.canGoOn e he] at hgo
  unfold wakes
  split
  · rfl
  · rename_i hr
    obtain ⟨due, hdue, hle⟩ : ∃ due, p.due = some due ∧ due ≤ e.now := by
      simpa [hr, Option.any_eq_true] using hgo
    simp [hdue, hle]

/-- A fiber that stands still goes on at the same time as before. -/
theorem wakes_of_meanwhile {others : Engine → Engine → Prop} (h : Timed ctx p) {e e' : Engine}
    (he : e.isCancelled ctx.token = false) (hdone : p.isDone = false)
    (ho : ∀ e e', others e e' → e'.now = e.now) (hm : Meanwhile others p e e') :
    p.wakes e'.now = p.wakes e.now := by
  cases hm with
  | act hact => rw [ho _ _ hact]
  | time ms hidle hdue =>
    have hgo : p.canGoOn e = false := by simpa [hdone] using hidle
    obtain ⟨due, hd, hr, hlt⟩ := h.exists_due he hdone hgo
    have hle := hdue due hd
    simp only [wakes, hr, hd, Option.getD_some, Bool.false_eq_true, if_false]
    omega

end Timed

namespace Alike

variable {p p' : Fiber Engine α} {e e' f f' : Engine}

theorem due_eq (h : Alike r ctx lag p p') : p'.due = p.due.map (· + lag) := by
  induction h with
  | done a | act | wait | abort message => rfl
  | @limit _ _ due _ _ _ _ _ _ ihb =>
    simp only [Fiber.due, ihb]
    exact earlier_map_add (some _) _ lag
  | guarded _ _ ihb => exact ihb
  | both _ _ _ ihl ihr => simp only [Fiber.due, ihl, ihr, earlier_map_add]

theorem timed (h : Alike r ctx lag p p') : Timed ctx p ∧ Timed ctx p' := by
  induction h with
  | done a | act | abort message =>
    exact ⟨⟨fun _ _ => rfl, fun _ hr => nomatch hr⟩, ⟨fun _ _ => rfl, fun _ hr => nomatch hr⟩⟩
  | wait => exact ⟨.sleep _ _, .sleep _ _⟩
  | limit _ _ ihb => exact ⟨ihb.1.limit _ _, ihb.2.limit _ _⟩
  | guarded _ _ ihb => exact ⟨ihb.1.guarded _, ihb.2.guarded _⟩
  | both _ _ _ ihl ihr => exact ⟨ihl.1.both ihr.1 _, ihl.2.both ihr.2 _⟩

theorem wakes_eq (h : Alike r ctx lag p p') (now : Nat) (hdone : p.isDone = false) :
    p'.wakes (now + lag) = p.wakes now + lag := by
  unfold wakes
  rw [h.isReady_eq, h.due_eq]
  split
  · rfl
  · rename_i hr
    obtain ⟨due, hdue⟩ := Option.isSome_iff_exists.1 (h.timed.1.due hdone (by simpa using hr))
    simp [hdue, Nat.add_max_add_right]

/-! ## Runs by the clock -/

/-- A turn of a fiber that keeps to its realm leaves one that does. -/
theorem turn (h : Alike r ctx 0 p p) (he : e.isCancelled ctx.token = false)
    (ht : TakesTurn p e p' e') : Alike r ctx 0 p' p' ∧ r.Frame ctx e e' := by
  have hpoll := h.poll (.self he)
  unfold TakesTurn at ht
  generalize p.poll e = q at hpoll ht
  cases ht with
  | done =>
    cases hpoll with
    | done ht => exact ⟨.done _, ht.left⟩
  | waiting =>
    cases hpoll with
    | waiting hp ht => exact ⟨hp, ht.left⟩

private theorem move (h : Alike r ctx 0 p p) (hp : p.isSplit = false)
    (he : e.isCancelled ctx.token = false) (hm : Moves p e p' e') :
    Alike r ctx 0 p' p' ∧ r.Frame ctx e e' := by
  cases hm with
  | act =>
    cases h with
    | act ht hn => exact ⟨hn e e (.self he), (ht e e (.self he)).left⟩
  | wait hr =>
    cases h with
    | @wait _ due next _ hn =>
      unfold elapsed at hr
      split at hr
      · cases hr
        exact ⟨hn, .refl r ctx e⟩
      · cases hr
  | stop hb =>
    cases h with
    | limit => cases hb
    | guarded => exact absurd (he.symm.trans hb) Bool.false_ne_true
  | ended _ hbody =>
    cases h with
    | limit hb hn | guarded hb hn => exact ⟨hn _, (hb.turn he (.of_done hbody)).2⟩
  | under _ hbody _ =>
    cases h with
    | limit hb hn =>
      obtain ⟨hb', hframe⟩ := hb.turn he (.of_waiting hbody)
      exact ⟨.limit hb' hn, hframe⟩
    | guarded hb hn =>
      obtain ⟨hb', hframe⟩ := hb.turn he (.of_waiting hbody)
      exact ⟨.guarded hb' hn, hframe⟩
  | late _ hbody _ =>
    cases h with
    | limit hb hn | guarded hb hn => exact ⟨hn _, (hb.turn he (.of_waiting hbody)).2⟩
  | left | right | join => cases hp

/-- So does a stride of it. -/
theorem stride (h : Alike r ctx 0 p p) (he : e.isCancelled ctx.token = false)
    (hs : Strides p e p' e') : Alike r ctx 0 p' p' ∧ r.Frame ctx e e' := by
  induction hs with
  | move hp hm => exact h.move hp he hm
  | left ht =>
    cases h with
    | both hl hr hn => exact ⟨.both (hl.turn he ht).1 hr hn, (hl.turn he ht).2⟩
  | right _ ih =>
    cases h with
    | both hl hr hn => exact ⟨.both hl (ih hr he).1 hn, (ih hr he).2⟩
  | join =>
    cases h with
    | both _ _ hn => exact ⟨hn _ _, .refl r ctx _⟩

/-- The run of a fiber that keeps to its realm does not show in a realm apart from it. -/
theorem same_of_solo {others : Engine → Engine → Prop} (h : Alike r ctx 0 p p)
    (he : e.isCancelled ctx.token = false) (hr : r.Apart r')
    (ho : ∀ e e', others e e' → r'.Spared ctx e e') (hs : Solo others p e p' f) :
    r'.Same ctx e f ∧ f.isCancelled ctx.token = false ∧ e.now ≤ f.now := by
  induction hs with
  | refl => exact ⟨.refl r' ctx _, he, Nat.le_refl _⟩
  | go ht _ ih =>
    obtain ⟨hp, hf⟩ := h.turn he ht
    obtain ⟨hs, hc, hn⟩ := ih hp (hf.cancelled.trans he)
    exact ⟨(hf.same hr).trans hs, hc, hf.now ▸ hn⟩
  | meanwhile hm _ ih =>
    cases hm with
    | act hact =>
      have hspared := ho _ _ hact
      obtain ⟨hs, hc, hn⟩ := ih h (hspared.cancelled.trans he)
      exact ⟨hspared.same.trans hs, hc, hspared.now ▸ hn⟩
    | time ms _ _ =>
      obtain ⟨hs, hc, hn⟩ := ih h he
      exact ⟨(Realm.Same.later r' ctx _ _).trans hs, hc, Nat.le_trans (Nat.le_add_right _ ms) hn⟩

/-- A run that others do not cancel goes on, in its realm. -/
theorem kept_of_elapses {goes : Fiber Engine α → Engine → Fiber Engine α → Engine → Prop}
    {others : Engine → Engine → Prop}
    (hg : ∀ {p p' e e'}, goes p e p' e' → Alike r ctx 0 p p → e.isCancelled ctx.token = false →
      Alike r ctx 0 p' p' ∧ r.Frame ctx e e')
    (hc : ∀ e e', others e e' → e'.isCancelled ctx.token = e.isCancelled ctx.token)
    (h : Alike r ctx 0 p p) (he : e.isCancelled ctx.token = false)
    (hs : Elapses goes others p e p' f) :
    Alike r ctx 0 p' p' ∧ f.isCancelled ctx.token = false := by
  induction hs with
  | refl => exact ⟨h, he⟩
  | go ht _ ih =>
    obtain ⟨hp, hframe⟩ := hg ht h he
    exact ih hp (hframe.cancelled.trans he)
  | meanwhile hm _ ih =>
    cases hm with
    | act hact => exact ih h ((hc _ _ hact).trans he)
    | time ms _ _ => exact ih h he

private theorem still {p : Fiber Engine α} (h : Meanwhile (r.Spared ctx) p e e') :
    r.Same ctx e e' ∧ e'.isCancelled ctx.token = e.isCancelled ctx.token := by
  cases h with
  | act h => exact ⟨h.same, h.cancelled⟩
  | time ms _ _ => exact ⟨.later r ctx e _, rfl⟩

/-- Once a fiber is done its realm stays as it is. -/
private theorem done_of_solo {a : α} (h : Solo (r.Spared ctx) (.done a) e p' f) :
    p' = .done a ∧ r.Same ctx e f := by
  generalize hp : (Fiber.done a : Fiber Engine α) = p at h
  induction h with
  | refl => exact ⟨rfl, .refl r ctx _⟩
  | go ht _ ih =>
    subst hp
    cases ht
    exact ih rfl
  | meanwhile hm _ ih =>
    obtain ⟨hq, hs⟩ := ih hp
    exact ⟨hq, (still hm).1.trans hs⟩

/-- A fiber that comes to its end takes its first turn at the time at which it wakes up. -/
private theorem first_turn {a : α} (hp : Timed ctx p) (hdone : p.isDone = false)
    (he : e.isCancelled ctx.token = false) (h : Solo (r.Spared ctx) p e (.done a) f) :
    ∃ e₁ p₁ e₂, r.Same ctx e e₁ ∧ e₁.isCancelled ctx.token = false ∧ e₁.now = p.wakes e.now ∧
      p.canGoOn e₁ = true ∧ TakesTurn p e₁ p₁ e₂ ∧ Solo (r.Spared ctx) p₁ e₂ (.done a) f := by
  generalize hq : (Fiber.done a : Fiber Engine α) = q at h
  induction h with
  | refl =>
    subst hq
    cases hdone
  | @go p p' q e e' f ht hrest ih =>
    cases hgo : p.canGoOn e with
    | true => exact ⟨e, p', e', .refl r ctx e, he, (hp.wakes_of_canGoOn he hgo).symm, hgo, ht, hrest⟩
    | false =>
      -- A turn that brings nothing further is no turn.
      unfold TakesTurn at ht
      rw [poll_of_not_canGoOn hgo] at ht
      cases ht
      exact ih hp hdone he hq
  | meanwhile hm _ ih =>
    obtain ⟨hsame, hcancelled⟩ := still hm
    have hwakes := hp.wakes_of_meanwhile he hdone (fun _ _ ho => ho.now) hm
    obtain ⟨e₁, p₁, e₂, hs, hc, hn, hturn⟩ := ih hp hdone (hcancelled.trans he) hq
    exact ⟨e₁, p₁, e₂, hsame.trans hs, hc, hn.trans hwakes, hturn⟩

/-- Alike fibers that run to their ends by the clock, while others spare their realm, end alike. -/
theorem determined {a a' : α} (h : Alike r ctx lag p p') (hs : r.Same ctx e e')
    (he : e.isCancelled ctx.token = false) (he' : e'.isCancelled ctx.token = false)
    (hw : p.isDone = false → p'.wakes e'.now = p.wakes e.now + lag)
    (hrun : Solo (r.Spared ctx) p e (.done a) f)
    (hrun' : Solo (r.Spared ctx) p' e' (.done a') f') : a' = a ∧ r.Same ctx f f' := by
  induction p using wellFounded_turn.induction generalizing p' e e' with
  | h p ih =>
    cases hdone : p.isDone with
    | true =>
      cases h with
      | done b =>
        obtain ⟨hb, hf⟩ := done_of_solo hrun
        obtain ⟨hb', hf'⟩ := done_of_solo hrun'
        cases hb
        cases hb'
        exact ⟨rfl, hf.symm.trans (hs.trans hf')⟩
      | act | wait | limit | guarded | both | abort => cases hdone
    | false =>
      obtain ⟨e₁, p₁, e₂, hs₁, hc₁, hn₁, hgo, hturn, hrest⟩ := first_turn h.timed.1 hdone he hrun
      obtain ⟨e₁', p₁', e₂', hs₁', hc₁', hn₁', -, hturn', hrest'⟩ :=
        first_turn h.timed.2 (h.isDone_eq.trans hdone) he' hrun'
      have hm : r.Matched ctx lag e₁ e₁' :=
        ⟨hs₁.symm.trans (hs.trans hs₁'), by rw [hn₁', hn₁, hw hdone], hc₁, hc₁'⟩
      have hleads : Turn p₁ p := ⟨e₁, e₂, by simp [hdone, hgo], hturn⟩
      have hpoll := h.poll hm
      unfold TakesTurn at hturn hturn'
      generalize p.poll e₁ = q at hpoll hturn
      generalize p'.poll e₁' = q' at hpoll hturn'
      have hnext (ht : r.Tandem ctx e₁ e₁' e₂ e₂') (hp : Alike r ctx lag p₁ p₁') :
          a' = a ∧ r.Same ctx f f' := by
        have hm' := ht.matched hm
        refine ih p₁ hleads hp hm'.same hm'.left hm'.right (fun hd => ?_) hrest hrest'
        rw [hm'.now, hp.wakes_eq _ hd]
      cases hturn with
      | done =>
        cases hpoll with
        | done ht =>
          cases hturn'
          exact hnext ht (.done _)
      | waiting =>
        cases hpoll with
        | waiting hp ht =>
          cases hturn'
          exact hnext ht hp

/-- A fiber that keeps to its realm and is not aborted comes to its end by the clock. -/
theorem completes {S : Support Engine} {others : Engine → Engine → Prop} (h : Alike r ctx 0 p p)
    (hl : Lively S p) (he : e.isCancelled ctx.token = false) :
    ∃ a f, Solo others p e (.done a) f := by
  induction p using wellFounded_turn.induction generalizing e with
  | h p ih =>
    cases hdone : p.isDone with
    | true =>
      cases p with
      | done a => exact ⟨a, e, .refl⟩
      | act | wait | race | both | abort => cases hdone
    | false =>
      have hgoes {e : Engine} (he : e.isCancelled ctx.token = false) (hgo : p.canGoOn e = true) :
          ∃ a f, Solo others p e (.done a) f := by
        obtain ⟨p₁, e₁, hturn, hl₁⟩ := hl.poll e
        obtain ⟨hp, hf⟩ := h.turn he hturn
        obtain ⟨a, f, hs⟩ := ih p₁ ⟨e, e₁, by simp [hdone, hgo], hturn⟩ hp hl₁
          (hf.cancelled.trans he)
        exact ⟨a, f, .go hturn hs⟩
      cases hgo : p.canGoOn e with
      | true => exact hgoes he hgo
      | false =>
        obtain ⟨due, hdue, hr, hlt⟩ := h.timed.1.exists_due he hdone hgo
        have hlater : ({ e with now := e.now + (due - e.now) } : Engine).isCancelled ctx.token = false :=
          he
        have hawake : p.canGoOn { e with now := e.now + (due - e.now) } = true := by
          have hle : due ≤ e.now + (due - e.now) := by omega
          rw [h.timed.1.canGoOn _ hlater, hdue]
          simp [hle]
        obtain ⟨a, f, hs⟩ := hgoes hlater hawake
        refine ⟨a, f, .meanwhile (.time (due - e.now) (.inr hgo) fun d hd => ?_) hs⟩
        rw [hdue] at hd
        cases hd
        omega

end Alike

end Fiber

end WorkflowEngine
