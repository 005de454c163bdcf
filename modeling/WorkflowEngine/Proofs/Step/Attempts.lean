import WorkflowEngine.Proofs.Fiber.Evolutions
import WorkflowEngine.Proofs.Node.Liveliness
import WorkflowEngine.Proofs.Step.Calls
import WorkflowEngine.Proofs.Step.Streams

/-!
# Attempts of steps

How often a step calls its executor, what each call comes to, and what becomes of it. Main statement: a
step that is not cancelled calls its executor until a call gives an output or a fatal fault, or all retries
are used up, and its result is read off the last of these calls.
-/

namespace WorkflowEngine

open Relation
open Fiber (Evolves GoesOn Obeys done_of_bind done_of_race evolves_of_act evolves_of_done)

/-- Whether the executor of a step is called. -/
def Happening.isCallOf (step : String) : Happening → Bool
  | called x _ => x == step
  | _ => false

/-- The calls of a step in a run, in order. -/
def Engine.callsOf (e : Engine) (runId step : String) : List Happening :=
  (e.journal.of runId).filter (Happening.isCallOf step)

namespace Step

/-- What others do beside a step of a run: they do not call it, and a cancelled run remains so. -/
structure Beside (s : Step) (ctx : RunContext) (e e' : Engine) : Prop where
  calls : e'.callsOf ctx.runId s.name = e.callsOf ctx.runId s.name
  token : e.isCancelled ctx.token = true → e'.isCancelled ctx.token = true

/-- Whether the time that a limit gives from some state on is over. -/
def overdue (limit : Option Nat) (e e' : Engine) : Bool :=
  match limit with
  | some ms => e.now + allowance ms ≤ e'.now
  | none => false

section Attempt

variable (s : Step) (ctx : RunContext) (input : StepInput) (limit : Option Nat)

/-- What an attempt comes to, from the state of its first turn to that after its last. -/
inductive Comes (e : Engine) : Except Fault StepOutput → Engine → Prop
  /-- The call comes to its end, and was not found overdue before. -/
  | answered {p : Fiber Engine (Except Fault StepOutput)} {r : Except Fault StepOutput}
      {e₁ e₂ : Engine} (h : GoesOn (s.Beside ctx) (overdue limit e) (s.invoke input ctx).run e p e₁)
      (hp : p.poll e₁ = .done r e₂) : Comes e r e₂
  /-- The call still waits when its time is over. -/
  | overran {p p' : Fiber Engine (Except Fault StepOutput)} {ms : Nat} {e₁ e₂ : Engine}
      (hl : limit = some ms)
      (h : GoesOn (s.Beside ctx) (overdue limit e) (s.invoke input ctx).run e p e₁)
      (hp : p.poll e₁ = .waiting p' e₂) (ho : overdue limit e e₂ = true) :
      Comes e (.error (.timeout s.name ms)) e₂

/-- Attempts one after another, with what they come to. -/
inductive Attempted : Engine → List (Except Fault StepOutput) → Engine → Prop
  | none {e e' : Engine} (ho : ReflTransGen (s.Beside ctx) e e') : Attempted e [] e'
  | next {e e₁ e₂ e' : Engine} {r : Except Fault StepOutput} {rest : List (Except Fault StepOutput)}
      (ho : ReflTransGen (s.Beside ctx) e e₁) (h : s.Comes ctx input limit e₁ r e₂)
      (hr : Attempted e₂ rest e') : Attempted e (r :: rest) e'

end Attempt

/-- Whether an attempt decides what becomes of its step. -/
def decisive : Except Fault StepOutput → Bool
  | .ok _ => true
  | .error fault => fault.isFatal

variable {s : Step} {ctx : RunContext} {input : StepInput} {limit : Option Nat} {α : Type}
  {e e' : Engine}

theorem isCancelled_of_beside (h : ReflTransGen (s.Beside ctx) e e')
    (hc : e.isCancelled ctx.token = true) : e'.isCancelled ctx.token = true := by
  induction h with
  | refl => exact hc
  | tail _ hx ih => exact hx.token ih

theorem callsOf_of_beside (h : ReflTransGen (s.Beside ctx) e e') :
    e'.callsOf ctx.runId s.name = e.callsOf ctx.runId s.name := by
  induction h with
  | refl => rfl
  | tail _ hx ih => exact hx.calls.trans ih

/-! ## One attempt -/

/-- Work with a time limit, after it began. -/
private def timed (s : Step) (ms due : Nat) (work : Fiber Engine (Except Fault StepOutput)) :
    Fiber Engine (Except Fault StepOutput) :=
  (Fiber.within due (fun e => due ≤ e.now) work).bind fun r =>
    .done (r.getD (.error (.timeout s.name ms)))

private theorem run_limited_some (s : Step) (ms : Nat) (work : RunTask StepOutput) :
    (s.limited (some ms) work).run =
      .act (fun e => (e.now, e)) fun now => s.timed ms (now + allowance ms) work.run := by
  unfold limited
  rw [RunTask.run_lift_bind]
  refine congrArg (Fiber.act _) (funext fun now => ?_)
  change (_ >>= _ : RunTask StepOutput).run = _
  rw [RunTask.run_lift_bind]
  refine congrArg (Fiber.bind _) (funext fun r => ?_)
  cases r <;> rfl

private theorem run_attempt (s : Step) :
    (s.attempt input ctx limit).run =
      (Fiber.cancellable (fun e => e.isCancelled ctx.token)
        (s.limited limit (s.invoke input ctx)).run).bind fun r =>
          .done (r.getD (.error .cancelled)) := by
  unfold attempt
  rw [RunTask.run_lift_bind]
  refine congrArg (Fiber.bind _) (funext fun r => ?_)
  cases r <;> rfl

private theorem poll_timed (s : Step) (ms due : Nat) (work : Fiber Engine (Except Fault StepOutput))
    (e : Engine) : (s.timed ms due work).poll e = match work.poll e with
      | .done r e' => .done r e'
      | .waiting work' e' =>
        if due ≤ e'.now then .done (.error (.timeout s.name ms)) e'
        else .waiting (s.timed ms due work') e'
      | .aborted message e' => .aborted message e' := by
  unfold timed Fiber.within
  simp only [Fiber.bind, Fiber.poll, Bool.false_eq_true, if_false]
  cases work.poll e with
  | done r e' => rfl
  | waiting work' e' => by_cases h : due ≤ e'.now <;> simp [h]
  | aborted message e' => rfl

/-- Limited work goes on as the work itself does, until its time is over. -/
private theorem goesOn_of_limited {work : RunTask StepOutput} {ms : Nat}
    {p : Fiber Engine (Except Fault StepOutput)} {others : Engine → Engine → Prop}
    (h : GoesOn others (fun _ => false) (s.limited (some ms) work).run e p e') :
    p = (s.limited (some ms) work).run ∧ e' = e ∨
      ∃ w, p = s.timed ms (e.now + allowance ms) w ∧
        GoesOn others (overdue (some ms) e) work.run e w e' := by
  -- After a turn that waits, the limited work waits in the work itself.
  have hturn {w : Fiber Engine (Except Fault StepOutput)} {p : Fiber Engine (Except Fault StepOutput)}
      {e₁ e₂ e₃ : Engine} (hw : GoesOn others (overdue (some ms) e) work.run e w e₁)
      (hp : (s.timed ms (e.now + allowance ms) w).poll e₁ = .waiting p e₂)
      (ho : ReflTransGen others e₂ e₃) :
      ∃ w', p = s.timed ms (e.now + allowance ms) w' ∧
        GoesOn others (overdue (some ms) e) work.run e w' e₃ := by
    rw [poll_timed] at hp
    cases hpoll : w.poll e₁ with
    | done r t | aborted message t =>
      rw [hpoll] at hp
      cases hp
    | waiting w' t =>
      rw [hpoll] at hp
      dsimp only at hp
      split at hp
      · cases hp
      · rename_i hdue
        cases hp
        exact ⟨w', rfl, hw.turn hpoll (by simpa [overdue] using hdue) ho⟩
  induction h with
  | start => exact .inl ⟨rfl, rfl⟩
  | turn _ hp _ ho ih =>
    refine .inr ?_
    rcases ih with ⟨rfl, rfl⟩ | ⟨w, rfl, hw⟩
    · rw [run_limited_some] at hp
      exact hturn .start hp ho
    · exact hturn hw hp ho

/-- An attempt of a run that is not cancelled in the end comes to what its call comes to. -/
theorem comes_of_attempt {r : Except Fault StepOutput}
    (h : Evolves (s.Beside ctx) (s.attempt input ctx limit).run e (.done r) e')
    (hc : e'.isCancelled ctx.token = false) :
    ∃ e₁ e₂, ReflTransGen (s.Beside ctx) e e₁ ∧ s.Comes ctx input limit e₁ r e₂ ∧
      ReflTransGen (s.Beside ctx) e₂ e' := by
  rw [run_attempt] at h
  obtain ⟨q, e₂, hrace, hend⟩ := done_of_bind h
  obtain ⟨hr, ho⟩ := evolves_of_done hend
  obtain ⟨e₁, p, t, t', ho₁, hgo, hdecides, ho₂⟩ := done_of_race hrace
  cases hdecides with
  | stopped hstop => cases (isCancelled_of_beside (ho₂.trans ho) hstop).symm.trans hc
  | late _ ha => cases ha
  | @ended b _ hp =>
    obtain rfl : r = b := Fiber.done.inj hr
    refine ⟨e₁, t', ho₁, ?_, ho₂.trans ho⟩
    cases limit with
    | none => exact .answered hgo hp
    | some ms =>
      -- The last turn is that of the limited call.
      have hlast {w : Fiber Engine (Except Fault StepOutput)}
          (hw : GoesOn (s.Beside ctx) (overdue (some ms) e₁) (s.invoke input ctx).run e₁ w t)
          (hp : (s.timed ms (e₁.now + allowance ms) w).poll t = .done r t') :
          s.Comes ctx input (some ms) e₁ r t' := by
        rw [poll_timed] at hp
        cases hpoll : w.poll t with
        | aborted message f =>
          rw [hpoll] at hp
          cases hp
        | done r' f =>
          rw [hpoll] at hp
          cases hp
          exact .answered hw hpoll
        | waiting w' f =>
          rw [hpoll] at hp
          dsimp only at hp
          split at hp
          · rename_i hdue
            cases hp
            exact .overran rfl hw hpoll (by simpa [overdue] using hdue)
          · cases hp
      rcases goesOn_of_limited hgo with ⟨rfl, rfl⟩ | ⟨w, rfl, hw⟩
      · rw [run_limited_some] at hp
        exact hlast .start hp
      · exact hlast hw hp

/-! ## Calls -/

/-- An attempt calls the executor in its first turn, and only then. -/
private theorem run_invoke (s : Step) (input : StepInput) (ctx : RunContext) :
    ∃ rest, (s.invoke input ctx).run =
        .act (fun e => ((), e.note ctx.runId (.called s.name input))) (fun _ => rest) ∧
      ctx.Silent rest := by
  unfold invoke
  rw [RunTask.run_lift_bind]
  cases ctx.isStreaming with
  | true =>
    refine ⟨_, rfl, ?_⟩
    refine (RunContext.silent_script (silent_forward s ctx) _).bind fun r => ?_
    rcases r with _ | _ | _ <;> exact .done _
  | false => exact ⟨_, rfl, RunContext.silent_script (fun e => e.elim) _⟩

theorem callsOf_of_acts (h : ctx.Acts e [] e') :
    e'.callsOf ctx.runId s.name = e.callsOf ctx.runId s.name := by
  rw [Engine.callsOf, h.of_journal, List.append_nil]
  rfl

theorem callsOf_note (s : Step) (input : StepInput) (e : Engine) :
    (e.note ctx.runId (.called s.name input)).callsOf ctx.runId s.name =
      e.callsOf ctx.runId s.name ++ [.called s.name input] := by
  simp [Engine.callsOf, Engine.note, Happening.isCallOf]

/-- Every attempt calls the executor once. -/
theorem Comes.callsOf {r : Except Fault StepOutput} (h : s.Comes ctx input limit e r e') :
    e'.callsOf ctx.runId s.name = e.callsOf ctx.runId s.name ++ [.called s.name input] := by
  obtain ⟨rest, hrun, hsilent⟩ := run_invoke s input ctx
  -- In its first turn the call goes on as what comes after the note.
  have hgoes {p : Fiber Engine (Except Fault StepOutput)} {e₁ : Engine}
      (h : GoesOn (s.Beside ctx) (overdue limit e) (s.invoke input ctx).run e p e₁) :
      ∃ p' e₁', p.poll e₁ = p'.poll e₁' ∧ ctx.Silent p' ∧
        e₁'.callsOf ctx.runId s.name = e.callsOf ctx.runId s.name ++ [.called s.name input] := by
    induction h with
    | start =>
      rw [hrun]
      exact ⟨rest, _, rfl, hsilent, callsOf_note s input e⟩
    | turn _ hp _ ho ih =>
      obtain ⟨p', e₁', hsame, hp', hcalls⟩ := ih
      rw [hsame] at hp
      obtain ⟨t, ht, hnext⟩ := Obeys.of_poll_waiting hp' hp
      obtain rfl : t = [] := by simpa [Account.after, Account.silent] using hnext.now
      refine ⟨_, _, rfl, by simpa using hnext, ?_⟩
      rw [callsOf_of_beside ho, callsOf_of_acts ht, hcalls]
  cases h with
  | answered h hp =>
    obtain ⟨p', e₁', hsame, hp', hcalls⟩ := hgoes h
    rw [hsame] at hp
    obtain ⟨t, ht, hend⟩ := Obeys.of_poll_done hp' hp
    obtain rfl : t = [] := hend
    rw [callsOf_of_acts ht, hcalls]
  | overran _ h hp =>
    obtain ⟨p', e₁', hsame, hp', hcalls⟩ := hgoes h
    rw [hsame] at hp
    obtain ⟨t, ht, hnext⟩ := Obeys.of_poll_waiting hp' hp
    obtain rfl : t = [] := by simpa [Account.after, Account.silent] using hnext.now
    rw [callsOf_of_acts ht, hcalls]

/-- Attempts call the executor as often as there are any. -/
theorem Attempted.callsOf {outcomes : List (Except Fault StepOutput)}
    (h : s.Attempted ctx input limit e outcomes e') :
    e'.callsOf ctx.runId s.name =
      e.callsOf ctx.runId s.name ++ List.replicate outcomes.length (.called s.name input) := by
  induction h with
  | none ho => simpa using callsOf_of_beside ho
  | next ho h _ ih =>
    rw [ih, h.callsOf, callsOf_of_beside ho, List.append_assoc, List.length_cons, List.replicate_succ]
    rfl

theorem Attempted.before {outcomes : List (Except Fault StepOutput)} {e₁ : Engine}
    (h : s.Attempted ctx input limit e₁ outcomes e') (ho : ReflTransGen (s.Beside ctx) e e₁) :
    s.Attempted ctx input limit e outcomes e' := by
  cases h with
  | none hx => exact .none (ho.trans hx)
  | next hx h hr => exact .next (ho.trans hx) h hr

theorem Attempted.after {outcomes : List (Except Fault StepOutput)} {e₁ : Engine}
    (h : s.Attempted ctx input limit e outcomes e₁) (ho : ReflTransGen (s.Beside ctx) e₁ e') :
    s.Attempted ctx input limit e outcomes e' := by
  induction h with
  | none hx => exact .none (hx.trans ho)
  | next hx h _ ih => exact .next hx h (ih ho)

/-! ## All attempts -/

/-- A task of a run that is not cancelled in the end began before any cancellation. -/
theorem isCancelled_of_evolves {t : RunTask α} {A : TaskAccount α} {q : Fiber Engine (Except Fault α)}
    (ht : RunTask.Obeys ctx t A) (h : Evolves (s.Beside ctx) t.run e q e')
    (hc : e'.isCancelled ctx.token = false) : e.isCancelled ctx.token = false := by
  induction h with
  | refl => exact hc
  | move h hm ih =>
    obtain ⟨_, hq⟩ := Obeys.evolves ht h
    obtain ⟨_, hacts, -⟩ := hq.of_moves hm
    exact ih (Bool.eq_false_iff.2 fun hcancelled =>
      Bool.eq_false_iff.1 hc (hacts.tokens _ hcancelled))
  | other _ ho ih =>
    exact ih (Bool.eq_false_iff.2 fun hcancelled => Bool.eq_false_iff.1 hc (ho.token hcancelled))

/-- A task of a run that asks first whether it was cancelled, and was not. -/
theorem evolves_of_checkCancelled {f : Unit → RunTask α} {r : Except Fault α}
    (h : Evolves (s.Beside ctx) (ctx.checkCancelled >>= f).run e (.done r) e')
    (hc : e'.isCancelled ctx.token = false) :
    ∃ e₁, ReflTransGen (s.Beside ctx) e e₁ ∧ Evolves (s.Beside ctx) (f ()).run e₁ (.done r) e' := by
  unfold RunContext.checkCancelled at h
  rw [bind_assoc, RunTask.run_lift_bind] at h
  rcases evolves_of_act h with ⟨hq, -⟩ | ⟨e₁, ho, h⟩
  · cases hq
  refine ⟨e₁, ho, ?_⟩
  dsimp only at h
  cases hcancelled : e₁.isCancelled ctx.token with
  | true =>
    rw [hcancelled] at h
    obtain ⟨-, hlast⟩ := evolves_of_done h
    cases (isCancelled_of_beside hlast hcancelled).symm.trans hc
  | false =>
    rw [hcancelled] at h
    exact h

/-- What the last attempt comes to for the step. -/
def settled : Except Fault StepOutput → Except Fault (Except String StepOutput)
  | .ok output => .ok (.ok output)
  | .error fault => if fault.isFatal then .error fault else .ok (.error fault.stepMessage)

/-- One attempt: it decides, or what follows it goes on. -/
private theorem attempted_of_once {otherwise : String → RunTask (Except String StepOutput)}
    {q : Except Fault (Except String StepOutput)}
    (ho : ∀ message, ∃ A, RunTask.Obeys ctx (otherwise message) A)
    (h : Evolves (s.Beside ctx) (attempts.once s input ctx limit otherwise).run e (.done q) e')
    (hc : e'.isCancelled ctx.token = false) :
    ∃ e₁ r e₂, ReflTransGen (s.Beside ctx) e e₁ ∧ s.Comes ctx input limit e₁ r e₂ ∧
      (decisive r = true ∧ q = settled r ∧ ReflTransGen (s.Beside ctx) e₂ e' ∨
        ∃ fault e₃, r = .error fault ∧ fault.isFatal = false ∧ ReflTransGen (s.Beside ctx) e₂ e₃ ∧
          Evolves (s.Beside ctx) (otherwise fault.stepMessage).run e₃ (.done q) e') := by
  unfold attempts.once at h
  obtain ⟨e₁, ho₁, h⟩ := evolves_of_checkCancelled h hc
  rw [RunTask.run_result_bind] at h
  obtain ⟨r, e₂, hattempt, hrest⟩ := done_of_bind h
  have hobeys : ∃ A, Obeys ctx.discipline (match r with
      | .ok output => (pure (.ok output) : RunTask (Except String StepOutput))
      | .error fault => if fault.isFatal then throw fault else otherwise fault.stepMessage).run A := by
    cases r with
    | ok output => exact ⟨_, RunTask.Obeys.pure (TaskAccount.ofResult_some _)⟩
    | error fault =>
      dsimp only
      split
      · exact ⟨_, RunTask.Obeys.throw (TaskAccount.ofResult_some _)⟩
      · exact ho _
  obtain ⟨A, hobeys⟩ := hobeys
  have hc₂ : e₂.isCancelled ctx.token = false := isCancelled_of_evolves hobeys hrest hc
  obtain ⟨e₃, e₄, ho₂, hcomes, ho₃⟩ := comes_of_attempt hattempt hc₂
  refine ⟨e₃, r, e₄, ho₁.trans ho₂, hcomes, ?_⟩
  cases r with
  | ok output =>
    obtain ⟨hq, hlast⟩ := evolves_of_done hrest
    exact .inl ⟨rfl, Fiber.done.inj hq, ho₃.trans hlast⟩
  | error fault =>
    cases hfatal : fault.isFatal with
    | true =>
      simp only [hfatal, if_true] at hrest
      obtain ⟨hq, hlast⟩ := evolves_of_done hrest
      exact .inl ⟨hfatal, by simpa [settled, hfatal] using Fiber.done.inj hq, ho₃.trans hlast⟩
    | false =>
      simp only [hfatal, Bool.false_eq_true, if_false] at hrest
      exact .inr ⟨fault, e₂, rfl, hfatal, ho₃, hrest⟩

/-- Attempts go on until one decides or the retries are used up. -/
theorem attempted_of_attempts {retries : Nat} {q : Except Fault (Except String StepOutput)}
    (h : Evolves (s.Beside ctx) (s.attempts input ctx limit retries).run e (.done q) e')
    (hc : e'.isCancelled ctx.token = false) :
    ∃ before last, s.Attempted ctx input limit e (before ++ [last]) e' ∧
      (∀ r ∈ before, decisive r = false) ∧ before.length ≤ retries ∧
      (decisive last = true ∨ before.length = retries) ∧ q = settled last := by
  induction retries generalizing e with
  | zero =>
    have hotherwise (message : String) : ∃ A, RunTask.Obeys ctx
        (pure (.error message) : RunTask (Except String StepOutput)) A :=
      ⟨_, RunTask.Obeys.pure (TaskAccount.ofResult_some _)⟩
    obtain ⟨e₁, r, e₂, ho, hcomes, hrest⟩ := attempted_of_once hotherwise h hc
    rcases hrest with ⟨hdecisive, hq, ho'⟩ | ⟨fault, e₃, rfl, hfatal, ho', hrest⟩
    · exact ⟨[], r, .next ho hcomes (.none ho'), nofun, Nat.le_refl _, .inl hdecisive, hq⟩
    · obtain ⟨hq, hlast⟩ := evolves_of_done hrest
      refine ⟨[], _, .next ho hcomes (.none (ho'.trans hlast)), nofun, Nat.le_refl _, .inr rfl, ?_⟩
      simpa [settled, hfatal] using Fiber.done.inj hq
  | succ retries ih =>
    have hotherwise (message : String) :
        ∃ A, RunTask.Obeys ctx (s.attempts input ctx limit retries) A :=
      ⟨_, obeys_attempts s input limit retries⟩
    obtain ⟨e₁, r, e₂, ho, hcomes, hrest⟩ := attempted_of_once hotherwise h hc
    rcases hrest with ⟨hdecisive, hq, ho'⟩ | ⟨fault, e₃, rfl, hfatal, ho', hrest⟩
    · exact ⟨[], r, .next ho hcomes (.none ho'), nofun, Nat.zero_le _, .inl hdecisive, hq⟩
    · obtain ⟨before, last, hattempted, hbefore, hle, hlast, hq⟩ := ih hrest
      have hattempted' := Attempted.next ho hcomes (hattempted.before ho')
      refine ⟨.error fault :: before, last, hattempted', fun r hr => ?_, by simpa using hle,
        hlast.imp_right (by simp), hq⟩
      rcases List.mem_cons.1 hr with rfl | hr
      · exact hfatal
      · exact hbefore r hr

/-- As many attempts as the first decisive one demands, or as retries allow. -/
theorem length_of_undecided {retries : Nat} {before : List (Except Fault StepOutput)}
    {last : Except Fault StepOutput} (hb : ∀ r ∈ before, decisive r = false)
    (hle : before.length ≤ retries) (hl : decisive last = true ∨ before.length = retries) :
    (before ++ [last]).length =
      min (retries + 1) ((before ++ [last]).findIdx decisive + 1) := by
  have hnone : before.findIdx decisive = before.length :=
    List.findIdx_eq_length.2 fun r hr => by simp [hb r hr]
  rw [List.findIdx_append, if_neg (by rw [hnone]; exact Nat.lt_irrefl _), List.length_append]
  rcases hl with hl | rfl
  · have hlast : [last].findIdx decisive = 0 := by simp [List.findIdx_cons, hl]
    simp only [hlast, List.length_singleton]
    omega
  · simp only [List.length_singleton]
    omega

/-- The result of a step, by what its last attempt came to. -/
inductive Results (s : Step) : Except Fault StepOutput → Except Fault StepOutput → Prop
  /-- An output is stamped: it keeps all that the step does not say itself. -/
  | output (o : StepOutput) (ms : Nat) : Results s (.ok o) (.ok
      { o with
        stepName := s.name
        stepId := o.stepId.or s.stepId
        executorKind := s.executor.kind
        executorName := s.executor.name
        error :=
          if o.success then o.error else o.error.or (some ("Step " ++ s.name ++ " failed"))
        durationMs := some ms })
  /-- A fatal fault is that of the step. -/
  | fatal {fault : Fault} (h : fault.isFatal) : Results s (.error fault) (.error fault)
  /-- Another one is passed over with a text that quotes it, -/
  | skipped {fault : Fault} (h : fault.isFatal = false) (hs : s.skipOnFailure) (ms : Nat) :
      Results s (.error fault) (.ok
        { stepName := s.name
          stepId := s.stepId
          executorKind := s.executor.kind
          executorName := s.executor.name
          content := some (.text
            ("Step " ++ s.name ++ " failed but skipped: " ++ fault.stepMessage))
          success := true
          durationMs := some ms })
  /-- or becomes a failure that quotes it. -/
  | failed {fault : Fault} (h : fault.isFatal = false) (hs : s.skipOnFailure = false) (ms : Nat) :
      Results s (.error fault) (.ok
        { stepName := s.name
          stepId := s.stepId
          executorKind := s.executor.kind
          executorName := s.executor.name
          success := false
          error := some fault.stepMessage
          durationMs := some ms })

theorem results_of_settled (s : Step) (last : Except Fault StepOutput) (ms : Nat) :
    s.Results last (match settled last with
      | .ok (.ok output) => .ok (s.stamp output ms)
      | .ok (.error message) => .ok (s.stamp (s.afterFailure message) ms)
      | .error fault => .error fault) := by
  cases last with
  | ok o => exact .output o ms
  | error fault =>
    cases hfatal : fault.isFatal with
    | true =>
      simp only [settled, hfatal, if_true]
      exact .fatal hfatal
    | false =>
      simp only [settled, hfatal, Bool.false_eq_true, if_false]
      cases hs : s.skipOnFailure with
      | true =>
        simp only [afterFailure, hs, if_true]
        exact .skipped hfatal hs ms
      | false =>
        simp only [afterFailure, hs, Bool.false_eq_true, if_false]
        exact .failed hfatal hs ms

/-- A step that is done attempts its work as often as it takes and as its retries allow. -/
theorem attempted_of_execute {result : Except Fault StepOutput}
    (h : Evolves (s.Beside ctx) (s.execute input ctx).run e (.done result) e')
    (hc : e'.isCancelled ctx.token = false) :
    ∃ before last,
      s.Attempted ctx input (s.timeoutMs.or ctx.stepDefaults.timeoutMs) e (before ++ [last]) e' ∧
      (∀ r ∈ before, decisive r = false) ∧
      before.length ≤ s.maxRetries.getD ctx.stepDefaults.maxRetries ∧
      (decisive last = true ∨ before.length = s.maxRetries.getD ctx.stepDefaults.maxRetries) ∧
      s.Results last result := by
  unfold execute at h
  rw [RunTask.run_lift_bind] at h
  rcases evolves_of_act h with ⟨hq, -⟩ | ⟨e₁, ho, h⟩
  · cases hq
  rw [Fiber.bind, RunTask.run_bind] at h
  obtain ⟨q, e₂, hattempts, hrest⟩ := done_of_bind h
  -- What follows the attempts only reads the clock.
  have hlast : ReflTransGen (s.Beside ctx) e₂ e' ∧ ∃ ms, result = match q with
      | .ok (.ok output) => .ok (s.stamp output ms)
      | .ok (.error message) => .ok (s.stamp (s.afterFailure message) ms)
      | .error fault => .error fault := by
    cases q with
    | error fault =>
      obtain ⟨hr, hlast⟩ := evolves_of_done hrest
      exact ⟨hlast, 0, Fiber.done.inj hr⟩
    | ok q =>
      dsimp only at hrest
      rw [RunTask.run_lift_bind] at hrest
      rcases evolves_of_act hrest with ⟨hq, -⟩ | ⟨e₃, ho₃, hrest⟩
      · cases hq
      obtain ⟨hr, hlast⟩ := evolves_of_done hrest
      refine ⟨ho₃.trans hlast, e₃.now - e₁.now, ?_⟩
      cases q <;> exact Fiber.done.inj hr
  obtain ⟨ho₂, ms, rfl⟩ := hlast
  have hc₂ : e₂.isCancelled ctx.token = false :=
    Bool.eq_false_iff.2 fun hcancelled =>
      Bool.eq_false_iff.1 hc (isCancelled_of_beside ho₂ hcancelled)
  obtain ⟨before, last, hattempted, hbefore, hle, hdecides, rfl⟩ :=
    attempted_of_attempts hattempts hc₂
  exact ⟨before, last, (hattempted.before ho).after ho₂, hbefore, hle, hdecides,
    results_of_settled s last ms⟩

theorem evolves_of_goesOn {others : Engine → Engine → Prop} {after : Engine → Bool}
    {p q : Fiber Engine α} (h : GoesOn others after p e q e') : Evolves others p e q e' := by
  induction h with
  | start => exact .refl
  | turn _ hp _ ho ih => exact (ih.trans (Fiber.evolves_of_poll_waiting hp)).still ho

/-- In streaming mode a call that is not overdue comes to what the items of its stream come to. -/
theorem Comes.answers {items : Script Script.Item Unit} {r : Except Fault StepOutput}
    (h : s.Comes ctx input limit e r e') (hs : ctx.isStreaming)
    (hi : items.upToEnd = s.executor.stream input (ctx.forStep s.name)) :
    items.Answers s.name r ∨ ∃ ms, limit = some ms ∧ r = .error (.timeout s.name ms) := by
  cases h with
  | answered h hp =>
    have hends := (evolves_of_goesOn h).trans (Fiber.evolves_of_poll_done hp)
    exact .inl ((s.gives_streamed hs input hi).of_evolves hends)
  | overran hl _ _ _ => exact .inr ⟨_, hl, rfl⟩

/-- The law of the attempts of a step, whatever its executor does and others do beside it. A step that is
done and was not cancelled has called its executor once for each attempt; it made as many as the first one
with an output or a fatal fault demands, or as its retries allow, and its result is read off the last one.
Retries and time limit are those of the step, or else the default ones. A step comes to its end when its
executor does. In streaming mode a call comes to the first final output or fault of its stream. -/
theorem attempts_decide {p : Fiber Engine (Except Fault StepOutput)}
    (h : Evolves (s.Beside ctx) (s.execute input ctx).run e p e') :
    (∀ result, p = .done result → e'.isCancelled ctx.token = false →
      ∃ outcomes last,
        s.Attempted ctx input (s.timeoutMs.or ctx.stepDefaults.timeoutMs) e outcomes e' ∧
        e'.callsOf ctx.runId s.name =
          e.callsOf ctx.runId s.name ++ List.replicate outcomes.length (.called s.name input) ∧
        outcomes.length = min (s.maxRetries.getD ctx.stepDefaults.maxRetries + 1)
          (outcomes.findIdx decisive + 1) ∧
        outcomes.getLast? = some last ∧ s.Results last result) ∧
    (s.executor.Steady → (audience ctx.feed).sound e' →
      ∃ result e'', Evolves (audience ctx.feed).helps p e' (.done result) e'') ∧
    (ctx.isStreaming →
      (∃ items : Script Script.Item Unit,
        items.upToEnd = s.executor.stream input (ctx.forStep s.name)) ∧
      ∀ items : Script Script.Item Unit,
        items.upToEnd = s.executor.stream input (ctx.forStep s.name) →
        ∀ e₁ r e₂, s.Comes ctx input (s.timeoutMs.or ctx.stepDefaults.timeoutMs) e₁ r e₂ →
          items.Answers s.name r ∨
            ∃ ms, s.timeoutMs.or ctx.stepDefaults.timeoutMs = some ms ∧
              r = .error (.timeout s.name ms)) := by
  refine ⟨?_, fun hs hsound => ?_, fun hs => ⟨Script.exists_upToEnd _, fun items hi e₁ r e₂ hr => ?_⟩⟩
  · rintro result rfl hc
    obtain ⟨before, last, hattempted, hbefore, hle, hdecides, hresult⟩ := attempted_of_execute h hc
    refine ⟨before ++ [last], last, hattempted, hattempted.callsOf, ?_, by simp, hresult⟩
    exact length_of_undecided hbefore hle hdecides
  · refine Node.finishes_of_tells (s.lively_execute hs input) (fun feed hfeed => ?_) h hsound
    have hserves : Outlet.Serves ⟨ctx.runId, ctx.token, feed, ctx.bus⟩ ctx := ⟨rfl, rfl, hfeed, rfl⟩
    exact ⟨_, s.tells_execute hserves input⟩
  · exact hr.answers hs hi

/-- Nobody opens at the first knock. -/
private def knock : Step where
  name := "knock"
  maxRetries := some 2
  executor :=
    { name := "porter"
      call := fun _ _ => .count ⟨0⟩ fun calls =>
        if calls = 0 then .fail (.executor "knock" "asleep") else .finish (.ofText "open") }

private def visitor : RunContext :=
  { sessionId := "session", runId := "run", state := ⟨0⟩, token := ⟨0⟩ }

private def gate : Engine :=
  { start := ⟨0, 0⟩, states := ⟨[∅]⟩, tokens := ⟨[{}]⟩, tallies := ⟨[{}]⟩ }

private theorem poll_knock :
    (match (knock.execute {} visitor).run.poll gate with
      | .done (.ok o) e => o.success && (e.callsOf "run" "knock").length == 2 &&
        !e.isCancelled ⟨0⟩
      | _ => false) = true := by
  decide +kernel

/-- A step whose second attempt gives an output makes no third one, though it might. -/
theorem attempts_decide_knock : ∃ result e outcomes last,
    Evolves (knock.Beside visitor) (knock.execute {} visitor).run gate (.done result) e ∧
    knock.Attempted visitor {} none gate outcomes e ∧ outcomes.length = 2 ∧
    outcomes.length = min 3 (outcomes.findIdx decisive + 1) ∧
    outcomes.getLast? = some last ∧ knock.Results last result := by
  have hends := poll_knock
  cases hpoll : (knock.execute {} visitor).run.poll gate with
  | waiting p e | aborted message e =>
    rw [hpoll] at hends
    cases hends
  | done result e =>
    rw [hpoll] at hends
    have h : Evolves (knock.Beside visitor) (knock.execute {} visitor).run gate (.done result) e :=
      Fiber.evolves_of_poll_done hpoll
    cases result with
    | error fault => cases hends
    | ok o =>
      simp only [Bool.and_eq_true, beq_iff_eq, Bool.not_eq_true'] at hends
      obtain ⟨hdecides, -⟩ := attempts_decide h
      obtain ⟨outcomes, last, hattempted, hcalls, hlen, hlast, hresult⟩ :=
        hdecides _ rfl hends.2
      refine ⟨_, e, outcomes, last, h, hattempted, ?_, hlen, hlast, hresult⟩
      have hcount := congrArg List.length hcalls
      rw [List.length_append, List.length_replicate] at hcount
      have hnone : gate.callsOf visitor.runId knock.name = [] := by rfl
      rw [hnone, List.length_nil, Nat.zero_add] at hcount
      exact hcount.symm.trans hends.1.2

end Step

end WorkflowEngine
