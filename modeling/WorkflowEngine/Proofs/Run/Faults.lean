import Mathlib.Data.List.ReduceOption
import WorkflowEngine.Proofs.Run.Tasks

/-!
# Faults of tasks

Where the fault of a task comes from. A history tells, beside what the run notes, where it was found
cancelled. A task is excused when its fault is that of a cancelled run and the run was found
cancelled, or has a cause of some kind in what was noted.
-/

namespace WorkflowEngine

open Fiber

namespace Fiber.Obeys

variable {σ ε δ α : Type} {d : Discipline σ ε} {c : Discipline σ δ}

/-- A fiber that adds nothing to a history adds nothing to one of another discipline either, when
that one allows as much. -/
theorem silent_lift (hd : ∀ {s s'}, d.allows s [] s' → c.allows s [] s') {p : Fiber σ α}
    {A : Account ε α} (hA : ∀ t r, A t r → t = []) (h : Obeys d p A) :
    Obeys c p fun t r => t = [] ∧ A [] r := by
  have hnil {β : Type} {q : Fiber σ β} {B : Account ε β} (hB : ∀ t r, B t r → t = [])
      {t : List ε} (hq : Obeys d q (B.after t)) : t = [] ∧ Obeys d q B := by
    obtain rfl : t = [] := hB _ _ ((Account.after_nil_apply _ _ _).1 hq.now)
    exact ⟨rfl, hq⟩
  induction p with
  | done a => exact ⟨rfl, h⟩
  | act step next ih =>
    refine ⟨⟨rfl, h.1⟩, fun s => ?_⟩
    obtain ⟨t, ht, hn⟩ := h.2 s
    obtain ⟨rfl, hn⟩ := hnil hA hn
    exact ⟨[], hd ht, ih _ hA hn⟩
  | wait due ready next ih =>
    refine ⟨⟨rfl, h.1⟩, fun s b s' hr => ?_⟩
    obtain ⟨t, ht, hn⟩ := h.2 s b s' hr
    obtain ⟨rfl, hn⟩ := hnil hA hn
    exact ⟨[], hd ht, ih _ hA hn⟩
  | race before after due body next ihb ih =>
    obtain ⟨B, hb, hB⟩ := h
    refine ⟨_, ihb (fun t r ht => hA t _ (hB t r ht).1) hb, ?_⟩
    rintro t r ⟨rfl, hr⟩
    obtain ⟨h₀, hnone, hsome⟩ := hB [] r hr
    refine ⟨⟨rfl, h₀⟩, fun s hs => ?_, fun b hb => ih _ hA (hsome b hb)⟩
    obtain ⟨u, hu, hn⟩ := hnone s hs
    obtain ⟨rfl, hn⟩ := hnil hA hn
    exact ⟨[], hd hu, ih _ hA hn⟩
  | both left right next ihl ihr ih =>
    obtain ⟨B, C, hl, hr, hB⟩ := h
    have hpart {u v : List ε} {r q} (hu : B u r) (hv : C v q) : u = [] ∧ v = [] :=
      List.append_eq_nil_iff.1 (hA _ _ (hB u r v q _ hu hv (.append u v)).1)
    refine ⟨_, _, ihl (fun u r hu => (hpart hu hr.now).1) hl,
      ihr (fun v q hv => (hpart hl.now hv).2) hr, ?_⟩
    rintro u r v q t ⟨rfl, hu⟩ ⟨rfl, hv⟩ hi
    cases hi
    obtain ⟨h₀, hn⟩ := hB [] r [] q [] hu hv .nil
    exact ⟨⟨rfl, h₀⟩, fun b c hb hc => ih b c hA (hn b c hb hc)⟩
  | abort message => exact ⟨rfl, h⟩

end Fiber.Obeys

namespace RunContext

variable {ctx : RunContext} {α : Type}

/-- The discipline of a run whose history also tells, as `none`, where it was found cancelled. -/
def watch (ctx : RunContext) : Discipline Engine (Option Happening) where
  allows e t e' := ctx.Acts e t.reduceOption e' ∧ (none ∈ t → e'.isCancelled ctx.token = true)
  nil e := ⟨.refl ctx e, fun h => nomatch h⟩
  append h h' := by
    rw [List.reduceOption_append, List.mem_append]
    exact ⟨h.1.append h'.1, fun ht => ht.elim (fun ht => h'.1.tokens _ (h.2 ht)) h'.2⟩

/-- What a run does in silence it does without finding itself cancelled. -/
theorem Silent.watched {p : Fiber Engine α} (h : ctx.Silent p) : Obeys ctx.watch p .silent :=
  (h.silent_lift (c := ctx.watch) (fun he => ⟨he, fun h => nomatch h⟩) fun _ _ ht => ht).mono
    fun _ _ ht => ht.1

/-- The run may be found cancelled when it is. -/
theorem watch_cancelled {e : Engine} (h : e.isCancelled ctx.token = true) :
    ctx.watch.allows e [none] e :=
  ⟨.refl ctx e, fun _ => h⟩

end RunContext

/-- Causes of faults, by what a run has noted. -/
structure Causes where
  of : List Happening → Fault → Prop
  mono {t u : List Happening} {fault : Fault} (h : t ⊆ u) : of t fault → of u fault

namespace Causes

/-- The histories of a task whose faults are excused, after some others. -/
def account (C : Causes) (before : List Happening) {α : Type} :
    TaskAccount α (Option Happening) := fun t r => ∀ fault, r = some (.error fault) →
  fault = .cancelled ∧ none ∈ t ∨ C.of (before ++ t.reduceOption) fault

/-- The histories of tasks side by side, after all of which each of their faults is excused. -/
def accountAll (C : Causes) (before : List Happening) {α : Type} :
    Account (Option Happening) (List (Except Fault α)) := fun t r => ∀ results, r = some results →
  ∀ fault, .error fault ∈ results →
    fault = .cancelled ∧ none ∈ t ∨ C.of (before ++ t.reduceOption) fault

variable {C : Causes} {before : List Happening} {α : Type} {t u : List (Option Happening)}
  {r : Option (Except Fault α)}

theorem account_after (h : C.account (before ++ t.reduceOption) u r) :
    (C.account before).after t u r := fun fault hr => by
  rcases h fault hr with ⟨hc, hu⟩ | hf
  · exact .inl ⟨hc, List.mem_append_right _ hu⟩
  · refine .inr (C.mono ?_ hf)
    rw [List.reduceOption_append, List.append_assoc]
    exact List.Subset.refl _

theorem account_mono {before' : List Happening} (hb : before ⊆ before')
    (h : C.account before t r) : C.account before' t r := fun fault hr =>
  (h fault hr).imp id (C.mono (List.append_subset.2
    ⟨fun _ ha => List.mem_append_left _ (hb ha), fun _ ha => List.mem_append_right _ ha⟩))

end Causes

namespace RunTask

variable {α β : Type} {ctx : RunContext} {C : Causes} {before : List Happening}

/-- A task of a run whose faults are excused, after some history. -/
abbrev Excused (ctx : RunContext) (C : Causes) (before : List Happening) (t : RunTask α) : Prop :=
  Fiber.Obeys ctx.watch t.run (C.account before)

namespace Excused

theorem later {before' : List Happening} {t : RunTask α} (hb : before ⊆ before')
    (h : Excused ctx C before t) : Excused ctx C before' t :=
  h.mono fun _ _ => Causes.account_mono hb

theorem causes {C' : Causes} {t : RunTask α} (h : Excused ctx C before t)
    (hC : ∀ u fault, C.of (before ++ u) fault → C'.of (before ++ u) fault) :
    Excused ctx C' before t :=
  h.mono fun _ _ hr fault hf => (hr fault hf).imp id (hC _ _)

theorem ofResult {q : Except Fault α} (h : ∀ fault, q = .error fault → C.of before fault) :
    Excused ctx C before (RunTask.ofResult q) := fun fault hr =>
  .inr (by simpa using h fault (Option.some.inj hr))

theorem throw {fault : Fault} (h : C.of before fault) :
    Excused ctx C before (MonadExcept.throw fault : RunTask α) :=
  ofResult fun _ hq => Except.error.inj hq ▸ h

theorem pure (a : α) : Excused ctx C before (Pure.pure a) := fun _ hr => by cases hr

theorem bind {t : RunTask α} {f : α → RunTask β} (h : Excused ctx C before t)
    (hf : ∀ a, Excused ctx C before (f a)) : Excused ctx C before (t >>= f) := by
  refine obeys_seq h (fun _ _ _ hr => by cases hr) (fun u fault hu fault' hr => ?_) fun u a _ => ?_
  · cases hr
    exact hu _ rfl
  · exact (hf a).mono fun v r hv =>
      Causes.account_after (Causes.account_mono (List.subset_append_left ..) hv)

/-- A sequence that begins with a fiber, whatever account that one obeys. -/
theorem lift {p : Fiber Engine α} {f : α → RunTask β} {A : Account (Option Happening) α}
    (hp : Fiber.Obeys ctx.watch p A) (hf : ∀ t a, A t (some a) →
      Fiber.Obeys ctx.watch (f a).run ((C.account before).after t)) :
    Excused ctx C before (liftM p >>= f) := by
  unfold Excused
  rw [run_lift_bind]
  exact hp.bind (fun _ _ _ h => nomatch h) hf

/-- A sequence that goes on with the result of a task, be it a value or a fault. -/
theorem result {t : RunTask α} {f : Except Fault α → RunTask β}
    {A : Account (Option Happening) (Except Fault α)} (ht : Fiber.Obeys ctx.watch t.run A)
    (hf : ∀ u q, A u (some q) → Fiber.Obeys ctx.watch (f q).run ((C.account before).after u)) :
    Excused ctx C before (t.result >>= f) :=
  lift (p := t.run) ht hf

/-- A sequence that begins with a fiber which notes nothing. -/
theorem silent {p : Fiber Engine α} {f : α → RunTask β} (hp : ctx.Silent p)
    (hf : ∀ a, Excused ctx C before (f a)) : Excused ctx C before (liftM p >>= f) := by
  refine lift hp.watched fun t a ht => ?_
  obtain rfl : t = [] := ht
  exact hf a

/-- A sequence that begins by noting what happens. -/
theorem note {h : Happening} {f : Unit → RunTask β} (hi : h.isInner)
    (hf : Excused ctx C (before ++ [h]) (f ())) :
    Excused ctx C before (liftM (ctx.note h) >>= f) := by
  unfold Excused
  rw [run_lift_bind]
  refine ⟨fun _ hr => (by cases hr), fun e => ⟨[some h], ?_, ?_⟩⟩
  · exact ⟨RunContext.acts_note h hi e, by simp⟩
  · exact hf.mono fun u r hu => Causes.account_after hu

theorem checkCancelled : Excused ctx C before ctx.checkCancelled := by
  unfold RunContext.checkCancelled RunContext.isCancelled Excused
  rw [run_lift_bind]
  have hdecide (cancelled : Bool) (u : List (Option Happening)) (hu : cancelled → none ∈ u) :
      Fiber.Obeys ctx.watch (if cancelled then MonadExcept.throw Fault.cancelled else Pure.pure () :
        RunTask Unit).run ((C.account before).after u) := by
    cases cancelled with
    | true =>
      refine Fiber.Obeys.of_done fun fault hr => .inl ⟨?_, hu rfl⟩
      cases hr
      rfl
    | false => exact Fiber.Obeys.of_done fun _ hr => by cases hr
  refine ⟨fun _ hr => (by cases hr), fun e => ?_⟩
  by_cases he : e.isCancelled ctx.token = true
  · exact ⟨[none], RunContext.watch_cancelled he, hdecide _ _ fun _ => List.mem_cons_self ..⟩
  · exact ⟨[], ctx.watch.nil e, hdecide _ _ fun h => absurd h he⟩

theorem all {ps : List (Fiber Engine (Except Fault α))}
    (hp : ∀ p ∈ ps, Fiber.Obeys ctx.watch p (C.account before)) :
    Fiber.Obeys ctx.watch (Fiber.all ps) (C.accountAll before) := by
  have hall : List.Forall₂ (fun p A => Fiber.Obeys ctx.watch p A) ps
      (ps.map fun _ => C.account before) := by
    induction ps with
    | nil => exact .nil
    | cons p rest ih =>
      exact .cons (hp p (by simp)) (ih fun q hq => hp q (List.mem_cons_of_mem _ hq))
  refine (Fiber.Obeys.all hall).mono fun t r ht => ?_
  clear hall hp
  induction ps generalizing t r with
  | nil =>
    rintro rs hrs fault hmem
    rw [ht.2 rs hrs] at hmem
    cases hmem
  | cons p rest ih =>
    obtain ⟨u, q, v, qs, hu, hv, hi, hr⟩ := ht
    rintro rs hrs fault hmem
    obtain ⟨a, as, rfl, rfl, rfl⟩ := hr rs hrs
    have hsub {l : List (Option Happening)} (hl : ∀ a ∈ l, a ∈ t) :
        before ++ l.reduceOption ⊆ before ++ t.reduceOption :=
      List.append_subset.2 ⟨List.subset_append_left .., fun a ha => List.mem_append_right _
        (List.reduceOption_mem_iff.2 (hl _ (List.reduceOption_mem_iff.1 ha)))⟩
    have hut (a : Option Happening) (ha : a ∈ u) : a ∈ t := hi.mem_iff.2 (.inl ha)
    have hvt (a : Option Happening) (ha : a ∈ v) : a ∈ t := hi.mem_iff.2 (.inr ha)
    rcases List.mem_cons.1 hmem with rfl | hmem
    · exact (hu fault rfl).imp (fun h => ⟨h.1, hut _ h.2⟩) (C.mono (hsub hut))
    · exact (ih v _ hv as rfl fault hmem).imp (fun h => ⟨h.1, hvt _ h.2⟩) (C.mono (hsub hvt))

end Excused

end RunTask

end WorkflowEngine
