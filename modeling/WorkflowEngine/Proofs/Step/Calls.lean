import WorkflowEngine.Proofs.Node.Visits

/-!
# Calls of executors

Whatever an executor does, a step notes nothing but calls of it, and a fault that comes out of a
step is fatal.
-/

namespace WorkflowEngine.Step

open RunTask

variable {ctx : RunContext} {α : Type}

/-- At most one call. -/
def oneCall (s : Step) (input : StepInput) : Account Happening α := fun t _ =>
  t = [] ∨ t = [.called s.name input]

/-- A number of calls. A fault at the end is fatal. -/
def tries (s : Step) (input : StepInput) : TaskAccount α := fun t r =>
  (∃ n, t = List.replicate n (.called s.name input)) ∧
    ∀ fault, r = some (.error fault) → fault.isFatal

theorem silent_forward (s : Step) (ctx : RunContext) (output : StepOutput) :
    ctx.Silent (s.forward ctx output) := by
  unfold forward
  split
  · exact RunContext.silent_emit ctx _
  · exact .done ()

theorem obeys_invoke (s : Step) (input : StepInput) :
    RunTask.Obeys ctx (s.invoke input ctx) (s.oneCall input) := by
  unfold invoke
  refine .note rfl (.inl rfl) ?_
  split
  · refine .silent_bind (RunContext.silent_script (silent_forward s ctx) _) (.inr rfl)
      (fun _ => .inr rfl) fun output => ?_
    split
    · exact .pure (.inr rfl)
    · exact .throw (.inr rfl)
  · refine (RunContext.silent_script (fun e => e.elim) _).mono ?_
    rintro t r rfl
    exact .inr rfl

private theorem obeys_stoppable {s : Step} {input : StepInput} {stop after : Engine → Bool}
    {due : Option Nat} {work : RunTask StepOutput} (hw : RunTask.Obeys ctx work (s.oneCall input)) :
    Fiber.Obeys ctx.discipline (.race stop after due work.run .done) (s.oneCall input) :=
  .race hw fun _ _ ht => ⟨ht, ht, fun _ _ => ht⟩

theorem obeys_limited (s : Step) (input : StepInput) (limit : Option Nat) :
    RunTask.Obeys ctx (s.limited limit (s.invoke input ctx)) (s.oneCall input) := by
  unfold limited
  split
  · exact obeys_invoke s input
  · refine .silent (RunContext.silent_time ctx) (.inl rfl) fun now => ?_
    refine .lift (obeys_stoppable (obeys_invoke s input)) (fun t ht => ht) fun t r ht => ?_
    split
    · exact .ofResult ((Account.after_nil_apply _ _ _).2 ht)
    · exact .throw ((Account.after_nil_apply _ _ _).2 ht)

theorem obeys_attempt (s : Step) (input : StepInput) (limit : Option Nat) :
    RunTask.Obeys ctx (s.attempt input ctx limit) (s.oneCall input) := by
  unfold attempt
  refine .lift (obeys_stoppable (obeys_limited s input limit)) (fun t ht => ht) fun t r ht => ?_
  split
  · exact .ofResult ((Account.after_nil_apply _ _ _).2 ht)
  · exact .throw ((Account.after_nil_apply _ _ _).2 ht)

private theorem tries_of_oneCall {s : Step} {input : StepInput} {t u : List Happening}
    {r : Option (Except Fault StepOutput)} {q : Option (Except Fault α)}
    (ht : s.oneCall input t r) (hu : s.tries input u q) : s.tries input (t ++ u) q := by
  obtain ⟨⟨n, rfl⟩, hf⟩ := hu
  refine ⟨?_, hf⟩
  rcases ht with rfl | rfl
  · exact ⟨n, rfl⟩
  · exact ⟨n + 1, rfl⟩

private theorem tries_nil {s : Step} {input : StepInput} {r : Option (Except Fault α)}
    (h : ∀ fault, r = some (.error fault) → fault.isFatal) : s.tries input [] r :=
  ⟨⟨0, rfl⟩, h⟩

private theorem obeys_once {s : Step} {input : StepInput} {limit : Option Nat}
    {otherwise : String → RunTask (Except String StepOutput)}
    (ho : ∀ message, RunTask.Obeys ctx (otherwise message) (s.tries input)) :
    RunTask.Obeys ctx (attempts.once s input ctx limit otherwise) (s.tries input) := by
  unfold attempts.once
  refine .checkCancelled (tries_nil fun _ h => nomatch h) (tries_nil ?_) ?_
  · intro fault h
    cases h
    rfl
  refine .result (obeys_attempt s input limit) (fun t ht => ?_) fun t r ht => ?_
  · simpa using tries_of_oneCall ht (tries_nil (r := none) fun _ h => nomatch h)
  · cases r with
    | ok output => exact .pure (tries_of_oneCall ht (tries_nil fun _ h => nomatch h))
    | error fault =>
      dsimp only
      split
      · refine .throw (tries_of_oneCall ht (tries_nil fun fault' h => ?_))
        cases h
        assumption
      · exact (ho _).mono fun u q hu => tries_of_oneCall ht hu

theorem obeys_attempts (s : Step) (input : StepInput) (limit : Option Nat) (retries : Nat) :
    RunTask.Obeys ctx (s.attempts input ctx limit retries) (s.tries input) := by
  induction retries with
  | zero => exact obeys_once fun message => .pure (tries_nil fun _ h => nomatch h)
  | succ retries ih => exact obeys_once fun _ => ih

theorem calls_begins (s : Step) (input : StepInput) : s.calls input [] none :=
  ⟨⟨0, rfl⟩, fun _ h => nomatch h⟩

private theorem calls_stamp {s : Step} {input : StepInput} {t : List Happening}
    (ht : ∃ n, t = List.replicate n (.called s.name input)) (output : StepOutput) (ms : Nat) :
    (s.calls input).map Prod.fst t (some (.ok (s.stamp output ms))) :=
  ⟨some (.ok (s.stamp output ms, .leaf (s.stamp output ms))),
    ⟨ht, fun _ hq => .inr ⟨output, ms, (Option.some.inj hq).symm⟩⟩, rfl⟩

theorem obeys_execute (s : Step) (input : StepInput) :
    RunTask.Obeys ctx (s.execute input ctx) ((s.calls input).map Prod.fst) := by
  unfold execute
  refine .silent (RunContext.silent_time ctx) ⟨none, calls_begins s input, rfl⟩ fun started => ?_
  refine .seq (obeys_attempts s input _ _) ?_ ?_ fun u result hu => ?_
  · rintro u ⟨hu, -⟩
    exact ⟨none, ⟨hu, fun _ h => nomatch h⟩, rfl⟩
  · rintro u fault ⟨hu, hf⟩
    refine ⟨some (.error fault), ⟨hu, fun q hq => ?_⟩, rfl⟩
    exact .inl ⟨fault, (Option.some.inj hq).symm, hf fault rfl⟩
  · refine .silent (RunContext.silent_time ctx) ?_ fun ended => .pure ?_
    · exact (Account.after_nil_apply _ _ _).2 ⟨none, ⟨hu.1, fun _ h => nomatch h⟩, rfl⟩
    · refine (Account.after_nil_apply _ _ _).2 ?_
      cases result with
      | ok output => exact calls_stamp hu.1 output _
      | error message => exact calls_stamp hu.1 (s.afterFailure message) _

end WorkflowEngine.Step
