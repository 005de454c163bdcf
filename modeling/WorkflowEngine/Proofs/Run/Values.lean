import WorkflowEngine.Proofs.Fiber.Evolutions
import WorkflowEngine.Proofs.Run.Tasks

/-!
# Values of tasks

What a task can come to, whatever it finds on its way and others do meanwhile. Main statements: how the
values of a task follow from those of its parts, and that a task comes to no other ones.
-/

namespace WorkflowEngine

namespace Fiber

variable {σ α β γ : Type}

/-- The discipline of a history that tells nothing. -/
def untold : Discipline σ Empty where
  allows _ _ _ := True
  nil _ := trivial
  append _ _ := trivial

/-- Every value that a fiber comes to is of a kind. -/
def Gives (p : Fiber σ α) (V : α → Prop) : Prop := Obeys untold p fun _ r => ∀ a, r = some a → V a

namespace Gives

variable {p : Fiber σ α} {V : α → Prop}

theorem done {a : α} (h : V a) : Gives (.done a : Fiber σ α) V := fun _ hr => Option.some.inj hr ▸ h

theorem abort (message : String) : Gives (.abort message : Fiber σ α) V := fun _ hr => nomatch hr

theorem mono {W : α → Prop} (h : Gives p V) (hV : ∀ a, V a → W a) : Gives p W :=
  Obeys.mono h fun _ _ hr a ha => hV a (hr a ha)

theorem bind {k : α → Fiber σ β} {W : β → Prop} (h : Gives p V) (hk : ∀ a, V a → Gives (k a) W) :
    Gives (p.bind k) W :=
  Obeys.bind h (fun _ _ _ hr => nomatch hr) fun _ a ha => hk a (ha a rfl)

theorem act {step : σ → β × σ} {next : β → Fiber σ α} (h : ∀ b, Gives (next b) V) :
    Gives (.act step next) V :=
  ⟨fun _ hr => (nomatch hr), fun _ => ⟨[], trivial, h _⟩⟩

/-- Any fiber comes to some value, if it comes to one. -/
theorem any (p : Fiber σ α) : Gives p fun _ => True := by
  induction p with
  | done a => exact .done trivial
  | act step next ih => exact .act ih
  | wait due ready next ih => exact ⟨fun _ _ => trivial, fun s b s' _ => ⟨[], trivial, ih b⟩⟩
  | race before after due body next ihb ih =>
    exact ⟨_, ihb, fun t r _ => ⟨fun _ _ => trivial, fun s _ => ⟨[], trivial, ih none⟩,
      fun b _ => ih (some b)⟩⟩
  | both left right next ihl ihr ih =>
    exact ⟨_, _, ihl, ihr, fun u r v q t _ _ _ => ⟨fun _ _ => trivial, fun b c _ _ => ih b c⟩⟩
  | abort message => exact .abort message

/-- A sequence whose first part may come to anything. -/
theorem after_any {k : α → Fiber σ β} {W : β → Prop} (hk : ∀ a, Gives (k a) W) :
    Gives (p.bind k) W :=
  (any p).bind fun a _ => hk a

/-- Work that may be stopped. -/
theorem race {before after : σ → Bool} {due : Option Nat} (h : Gives p V) :
    Gives (.race before after due p .done) fun r => ∀ a, r = some a → V a := by
  refine Obeys.race h fun t r ht => ⟨fun _ hr => (nomatch hr), fun _ hr => ?_, ?_⟩
  · cases hr
    exact fun _ ha => nomatch ha
  · rintro a rfl _ hr
    cases hr
    rintro _ ⟨⟩
    exact ht a rfl

/-- Fibers side by side. -/
theorem all {ps : List (Fiber σ α)} {Vs : List (α → Prop)} (h : List.Forall₂ Gives ps Vs) :
    Gives (Fiber.all ps) fun as => List.Forall₂ (fun V a => V a) Vs as := by
  induction h with
  | nil => exact .done .nil
  | cons hp _ ih =>
    refine ⟨_, _, hp, ih, fun u r v q t hu hv _ => ⟨fun _ hr => (nomatch hr), ?_⟩⟩
    rintro a as rfl rfl
    exact Gives.done (List.Forall₂.cons (hu a rfl) (hv as rfl))

/-- A fiber comes to no other values, whatever others do meanwhile. -/
theorem of_evolves {others : σ → σ → Prop} {s s' : σ} {a : α} (h : Gives p V)
    (he : Evolves others p s (.done a) s') : V a := by
  obtain ⟨t, ht⟩ := Obeys.evolves h he
  exact ht a rfl

end Gives

end Fiber

namespace RunTask

variable {α β : Type}

/-- Every value that a task comes to is of a kind. Faults are not looked at. -/
def Gives (t : RunTask α) (V : α → Prop) : Prop :=
  Fiber.Gives t.run fun r => ∀ a, r = .ok a → V a

namespace Gives

variable {t : RunTask α} {V : α → Prop} {W : β → Prop}

theorem ofResult {q : Except Fault α} (h : ∀ a, q = .ok a → V a) : Gives (RunTask.ofResult q) V :=
  .done h

theorem pure {a : α} (h : V a) : Gives (Pure.pure a) V := ofResult fun _ ha => Except.ok.inj ha ▸ h

theorem throw (fault : Fault) : Gives (MonadExcept.throw fault) V := ofResult fun _ ha => nomatch ha

theorem mono {V' : α → Prop} (h : Gives t V) (hV : ∀ a, V a → V' a) : Gives t V' :=
  Fiber.Gives.mono h fun _ hr a ha => hV a (hr a ha)

theorem any (t : RunTask α) : Gives t fun _ => True := (Fiber.Gives.any t.run).mono fun _ _ _ _ => trivial

theorem bind {f : α → RunTask β} (h : Gives t V) (hf : ∀ a, V a → Gives (f a) W) :
    Gives (t >>= f) W := by
  unfold Gives
  rw [run_bind]
  refine Fiber.Gives.bind h fun r hr => ?_
  cases r with
  | error fault => exact .done fun _ ha => nomatch ha
  | ok a => exact hf a (hr a rfl)

/-- A sequence whose first part may come to anything. -/
theorem after_any {f : α → RunTask β} (hf : ∀ a, Gives (f a) W) : Gives (t >>= f) W :=
  (any t).bind fun a _ => hf a

/-- A sequence that begins with a fiber. -/
theorem lift {p : Fiber Engine α} {f : α → RunTask β} (h : Fiber.Gives p V)
    (hf : ∀ a, V a → Gives (f a) W) : Gives (liftM p >>= f) W := by
  unfold Gives
  rw [run_lift_bind]
  exact h.bind hf

/-- A sequence that goes on with the result of a task, be it a value or a fault. -/
theorem result {f : Except Fault α → RunTask β} (h : Gives t V)
    (hf : ∀ r, (∀ a, r = .ok a → V a) → Gives (f r) W) : Gives (t.result >>= f) W :=
  lift (p := t.run) h hf

end Gives

end RunTask

end WorkflowEngine
