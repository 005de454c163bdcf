import WorkflowEngine.Proofs.Run.Conduct

/-!
# Accounts of tasks

How the account of a task is put together from the accounts of its parts. A fault passes over
everything after it.
-/

namespace WorkflowEngine

/-- The histories of a task, each with its result if it has ended. They are made of what its run's
journal notes, or of something else. -/
abbrev TaskAccount (α : Type) (ε : Type := Happening) := Account ε (Except Fault α)

namespace TaskAccount

variable {ε α β γ : Type}

/-- A task with a result at hand. -/
def ofResult (q : Except Fault α) : TaskAccount α ε := fun t r => t = [] ∧ ∀ p, r = some p → p = q

def ret (a : α) : TaskAccount α ε := ofResult (.ok a)

/-- A task and then, on its value, another one. -/
inductive bind (A : TaskAccount α ε) (B : α → TaskAccount β ε) : TaskAccount β ε
  | under {t : List ε} (h : A t none) : bind A B t none
  | fault {t : List ε} {fault : Fault} (h : A t (some (.error fault))) :
      bind A B t (some (.error fault))
  | next {t u : List ε} {a : α} {r : Option (Except Fault β)} (h : A t (some (.ok a)))
      (hb : B a u r) : bind A B (t ++ u) r

/-- A task whose value is changed by a function. -/
def map (g : α → β) (A : TaskAccount α ε) : TaskAccount β ε :=
  fun t r => ∃ q, A t q ∧ r = q.map (Except.map g)

/-- A task that may find its run cancelled first. -/
def unlessCancelled (A : TaskAccount α) : TaskAccount α := fun t r =>
  A t r ∨ t = [] ∧ r = some (.error .cancelled)

theorem bind_begins {A : TaskAccount α ε} {B : α → TaskAccount β ε} (h : A [] none) :
    bind A B [] none := .under h

theorem map_begins {g : α → β} {A : TaskAccount α ε} (h : A [] none) : map g A [] none :=
  ⟨none, h, rfl⟩

theorem ofResult_none (q : Except Fault α) : ofResult (ε := ε) q [] none :=
  ⟨rfl, fun _ h => nomatch h⟩

theorem ofResult_some (q : Except Fault α) : ofResult (ε := ε) q [] (some q) :=
  ⟨rfl, fun _ h => (Option.some.inj h).symm⟩

theorem map_map (g : β → γ) (f : α → β) (A : TaskAccount α ε) :
    map g (map f A) = map (g ∘ f) A := by
  funext t r
  refine propext ⟨?_, ?_⟩
  · rintro ⟨_, ⟨q, hq, rfl⟩, rfl⟩
    exact ⟨q, hq, by rcases q with _ | _ | _ <;> rfl⟩
  · rintro ⟨q, hq, rfl⟩
    exact ⟨_, ⟨q, hq, rfl⟩, by rcases q with _ | _ | _ <;> rfl⟩

/-! ## What accounts say -/

/-- Every history of an account is of a kind, and at its end the value is of a kind. -/
def Says (A : TaskAccount α) (T : List Happening → Prop) (V : List Happening → α → Prop) : Prop :=
  ∀ t r, A t r → T t ∧ ∀ a, r = some (.ok a) → V t a

namespace Says

variable {A : TaskAccount α} {T : List Happening → Prop} {V : List Happening → α → Prop}

theorem mono {T' : List Happening → Prop} {V' : List Happening → α → Prop} (h : A.Says T V)
    (hT : ∀ t, T t → T' t) (hV : ∀ t a, T t → V t a → V' t a) : A.Says T' V' := fun t r ht =>
  ⟨hT t (h t r ht).1, fun a ha => hV t a (h t r ht).1 ((h t r ht).2 a ha)⟩

theorem and {T' : List Happening → Prop} {V' : List Happening → α → Prop} (h : A.Says T V)
    (h' : A.Says T' V') : A.Says T fun t a => V t a ∧ V' t a := fun t r ht =>
  ⟨(h t r ht).1, fun a ha => ⟨(h t r ht).2 a ha, (h' t r ht).2 a ha⟩⟩

theorem ofResult {q : Except Fault α} (h₀ : T []) (h : ∀ a, q = .ok a → V [] a) :
    (ofResult q).Says T V := by
  rintro t r ⟨rfl, hr⟩
  exact ⟨h₀, fun a ha => h a (hr _ ha).symm⟩

theorem ret {a : α} (h₀ : T []) (h : V [] a) : (ret a).Says T V :=
  ofResult h₀ fun _ ha => Except.ok.inj ha ▸ h

theorem map {B : TaskAccount β} {g : β → α} (h : B.Says T fun t b => V t (g b)) :
    (map g B).Says T V := by
  rintro t _ ⟨q, hq, rfl⟩
  refine ⟨(h t q hq).1, fun a ha => ?_⟩
  rcases q with _ | _ | b <;> cases ha
  exact (h t _ hq).2 b rfl

/-- A task and then another one: what the second adds goes on from the history of the first. -/
theorem bind {B : α → TaskAccount β} {T' : List Happening → Prop} {W : List Happening → β → Prop}
    (h : A.Says T V) (hT : ∀ t, T t → T' t)
    (hB : ∀ t a, T t → V t a → (B a).Says (fun u => T' (t ++ u)) fun u b => W (t ++ u) b) :
    (bind A B).Says T' W := by
  intro t r ht
  cases ht with
  | under ht => exact ⟨hT t (h t _ ht).1, fun _ hr => nomatch hr⟩
  | fault ht => exact ⟨hT t (h t _ ht).1, fun _ hr => nomatch hr⟩
  | next ht hb => exact hB _ _ (h _ _ ht).1 ((h _ _ ht).2 _ rfl) _ _ hb

/-- A task after a result at hand. -/
theorem given {q : Except Fault γ} {B : γ → TaskAccount α} (h₀ : T [])
    (hB : ∀ c, q = .ok c → (B c).Says T V) :
    (TaskAccount.bind (TaskAccount.ofResult q) B).Says T V :=
  bind (V := fun t c => t = [] ∧ q = .ok c) (T := (· = []))
    (ofResult rfl fun _ hc => ⟨rfl, hc⟩) (fun _ ht => ht ▸ h₀) fun _ c ht hc => ht ▸ hB c hc.2

theorem unlessCancelled (h : A.Says T V) (h₀ : T []) : (unlessCancelled A).Says T V := by
  rintro t r (ht | ⟨rfl, rfl⟩)
  · exact h t r ht
  · exact ⟨h₀, fun _ hr => nomatch hr⟩

end Says

end TaskAccount

namespace RunTask

variable {α β γ δ : Type} {ctx : RunContext}

theorem run_bind (t : RunTask α) (f : α → RunTask β) :
    (t >>= f).run = t.run.bind fun r => match r with
      | .ok a => (f a).run
      | .error fault => .done (.error fault) := by
  refine congrArg (Fiber.bind t.run) (funext fun r => ?_)
  cases r <;> rfl

theorem run_lift_bind (p : Fiber Engine α) (f : α → RunTask β) :
    ((liftM p : RunTask α) >>= f).run = p.bind fun a => (f a).run := by
  rw [run_bind]
  exact Fiber.bind_assoc p _ _

theorem run_result_bind (t : RunTask α) (f : Except Fault α → RunTask β) :
    (t.result >>= f).run = t.run.bind fun r => (f r).run :=
  run_lift_bind t.run f

/-- A sequence of tasks, with what its account says of each way the first one may stand. -/
theorem obeys_seq {ε : Type} {d : Discipline Engine ε} {t : RunTask α} {f : α → RunTask β}
    {A : TaskAccount α ε} {B : TaskAccount β ε} (ht : Fiber.Obeys d t.run A)
    (hn : ∀ u, A u none → B u none)
    (he : ∀ u fault, A u (some (.error fault)) → B u (some (.error fault)))
    (hf : ∀ u a, A u (some (.ok a)) → Fiber.Obeys d (f a).run (B.after u)) :
    Fiber.Obeys d (t >>= f).run B := by
  rw [run_bind]
  refine Fiber.Obeys.bind ht hn fun u r hr => ?_
  cases r with
  | error fault => exact (Account.after_nil_apply _ _ _).2 (he u fault hr)
  | ok a => exact hf u a hr

/-- A task of a run that keeps to its discipline and agrees with an account. -/
abbrev Obeys (ctx : RunContext) (t : RunTask α) (A : TaskAccount α) : Prop :=
  Fiber.Obeys ctx.discipline t.run A

namespace Obeys

open TaskAccount

theorem ofResult {q : Except Fault α} {A : TaskAccount α} (h : A [] (some q)) :
    Obeys ctx (RunTask.ofResult q) A := h

theorem pure {a : α} {A : TaskAccount α} (h : A [] (some (.ok a))) :
    Obeys ctx (Pure.pure a) A := h

theorem throw {fault : Fault} {A : TaskAccount α} (h : A [] (some (.error fault))) :
    Obeys ctx (MonadExcept.throw fault : RunTask α) A := h

theorem seq {t : RunTask α} {f : α → RunTask β} {A : TaskAccount α} {B : TaskAccount β}
    (ht : Obeys ctx t A) (hn : ∀ u, A u none → B u none)
    (he : ∀ u fault, A u (some (.error fault)) → B u (some (.error fault)))
    (hf : ∀ u a, A u (some (.ok a)) → Obeys ctx (f a) (B.after u)) : Obeys ctx (t >>= f) B :=
  obeys_seq ht hn he hf

theorem bind {t : RunTask α} {f : α → RunTask β} {A : TaskAccount γ} {g : γ → α}
    {B : γ → TaskAccount δ} {g' : δ → β} (h : Obeys ctx t (map g A))
    (hf : ∀ c, Obeys ctx (f (g c)) (map g' (B c))) : Obeys ctx (t >>= f) (map g' (bind A B)) := by
  refine seq h ?_ ?_ ?_
  · rintro u ⟨_ | q, hq, hr⟩
    · exact ⟨none, .under hq, rfl⟩
    · cases hr
  · rintro u fault ⟨_ | _ | _, hq, hr⟩ <;> cases hr
    exact ⟨_, .fault hq, rfl⟩
  · rintro u a ⟨_ | _ | c, hq, hr⟩ <;> cases hr
    refine (hf c).mono ?_
    rintro v r ⟨q, hv, rfl⟩
    exact ⟨q, .next hq hv, rfl⟩

/-- A sequence whose first part has its result at hand. -/
theorem given {q : Except Fault α} {f : α → RunTask β} {B : α → TaskAccount γ} {g : γ → β}
    (hf : ∀ a, Obeys ctx (f a) (map g (B a))) :
    Obeys ctx (RunTask.ofResult q >>= f) (map g (TaskAccount.bind (TaskAccount.ofResult q) B)) :=
  bind (g := id) ⟨some q, ofResult_some q, by cases q <;> rfl⟩ hf

theorem ret {a : α} {b : β} {g : α → β} (h : b = g a) :
    Obeys ctx (Pure.pure b) (map g (TaskAccount.ret a)) :=
  ⟨some (.ok a), ofResult_some _, h ▸ rfl⟩

/-- A task whose value is changed by a function at its end. -/
theorem finish {t : RunTask α} {A : TaskAccount γ} {g : γ → α} {f : α → β} {f' : γ → δ}
    {g' : δ → β} (h : Obeys ctx t (map g A)) (hf : ∀ c, f (g c) = g' (f' c)) :
    Obeys ctx (t >>= fun a => Pure.pure (f a)) (map g' (map f' A)) := by
  rw [map_map]
  refine seq h ?_ ?_ ?_
  · rintro u ⟨_ | _, hq, hr⟩
    · exact ⟨none, hq, rfl⟩
    · cases hr
  · rintro u fault ⟨_ | _ | _, hq, hr⟩ <;> cases hr
    exact ⟨_, hq, rfl⟩
  · rintro u a ⟨_ | _ | c, hq, hr⟩ <;> cases hr
    refine pure ((Account.after_nil_apply _ _ _).2 ⟨_, hq, ?_⟩)
    simp [hf, Except.map]

theorem lift {p : Fiber Engine α} {f : α → RunTask β} {A : Account Happening α}
    {B : TaskAccount β} (hp : Fiber.Obeys ctx.discipline p A) (hn : ∀ t, A t none → B t none)
    (hf : ∀ t a, A t (some a) → Obeys ctx (f a) (B.after t)) : Obeys ctx (liftM p >>= f) B := by
  unfold Obeys
  rw [run_lift_bind]
  exact hp.bind hn hf

/-- A sequence that goes on with the result of a task, be it a value or a fault. -/
theorem result {t : RunTask α} {f : Except Fault α → RunTask β} {A : TaskAccount α}
    {B : TaskAccount β} (ht : Obeys ctx t A) (hn : ∀ u, A u none → B u none)
    (hf : ∀ u q, A u (some q) → Obeys ctx (f q) (B.after u)) : Obeys ctx (t.result >>= f) B :=
  lift (p := t.run) ht hn hf

/-- A sequence that begins with a task which notes nothing. -/
theorem silent_bind {t : RunTask α} {f : α → RunTask β} {A : TaskAccount β}
    (ht : Obeys ctx t .silent) (h₀ : A [] none) (he : ∀ fault, A [] (some (.error fault)))
    (hf : ∀ a, Obeys ctx (f a) A) : Obeys ctx (t >>= f) A := by
  refine seq ht (fun u hu => hu ▸ h₀) (fun u fault hu => hu ▸ he fault) fun u a hu => ?_
  obtain rfl : u = [] := hu
  exact hf a

/-- A sequence that begins with a fiber which notes nothing. -/
theorem silent {p : Fiber Engine α} {f : α → RunTask β} {A : TaskAccount β} (hp : ctx.Silent p)
    (h₀ : A [] none) (hf : ∀ a, Obeys ctx (f a) A) : Obeys ctx (liftM p >>= f) A := by
  unfold Obeys
  rw [run_lift_bind]
  exact hp.silent_bind h₀ hf

/-- A sequence that begins by noting what happens. -/
theorem note {h : Happening} {f : Unit → RunTask β} {A : TaskAccount β} (hi : h.isInner)
    (h₀ : A [] none) (hf : Obeys ctx (f ()) (A.after [h])) :
    Obeys ctx (liftM (ctx.note h) >>= f) A := by
  unfold Obeys
  rw [run_lift_bind]
  exact ⟨h₀, fun e => ⟨[h], RunContext.acts_note h hi e, hf⟩⟩

/-- A sequence that begins by asking whether the run was cancelled. -/
theorem checkCancelled {f : Unit → RunTask β} {A : TaskAccount β} (h₀ : A [] none)
    (hc : A [] (some (.error .cancelled))) (hf : Obeys ctx (f ()) A) :
    Obeys ctx (ctx.checkCancelled >>= f) A := by
  unfold RunContext.checkCancelled
  rw [bind_assoc]
  refine silent (RunContext.silent_isCancelled ctx) h₀ fun cancelled => ?_
  cases cancelled with
  | true => exact hc
  | false => exact hf

end Obeys

end RunTask

end WorkflowEngine
