import WorkflowEngine.Proofs.Node.Adequacy
import WorkflowEngine.Proofs.Node.Liveliness
import WorkflowEngine.Proofs.Node.Media

/-!
# Rounds of loops

A loop whose end condition is a task of its own, and what its rounds tell. Main statement: the bodies of
the first rounds are one sequence over the body written that many times.
-/

namespace WorkflowEngine

open TaskAccount

/-! ## Sequences one after another -/

namespace Sequence

/-- A sequence that goes on with another one. -/
def andThen : Sequence → Sequence → Sequence
  | completed _ _ produced, completed output next later => .completed output next (produced ++ later)
  | completed output _ produced, empty next => .completed output next produced
  | completed _ _ _, halted output => .halted output
  | empty _, q => q
  | halted output, _ => .halted output

/-- The input that a sequence hands on, unless it halted. -/
def next? : Sequence → Option StepInput
  | completed _ next _ | empty next => some next
  | halted _ => none

/-- The output of an iteration of a loop. -/
def output (name : String) : Sequence → StepOutput
  | completed output _ _ | halted output => output
  | empty input => Node.passthrough name .loop input

variable {p q : Sequence} {input : StepInput}

@[simp] theorem next?_after (first : StepOutput) (q : Sequence) : (q.after first).next? = q.next? := by
  cases q <;> rfl

theorem after_andThen (first : StepOutput) (p q : Sequence) :
    (p.after first).andThen q = (p.andThen q).after first := by
  cases p with
  | completed output next produced =>
    cases q with
    | completed output' next' produced' =>
      exact congrArg (completed output' next') (MediaSet.append_assoc _ _ _)
    | halted output' | empty input' => rfl
  | halted output => rfl
  | empty input => cases q <;> rfl

theorem next?_andThen (hp : p.next? = some input) : (p.andThen q).next? = q.next? := by
  cases p with
  | halted output => cases hp
  | completed output next produced => cases q <;> rfl
  | empty input => rfl

theorem output_andThen {name : String} (hp : p.next? = some input)
    (he : ∀ i, q = .empty i → ∃ i', p = .empty i') : (p.andThen q).output name = q.output name := by
  cases p with
  | halted output => cases hp
  | empty input => rfl
  | completed output next produced =>
    cases q with
    | completed output' next' produced' | halted output' => rfl
    | empty input' =>
      obtain ⟨i, hi⟩ := he input' rfl
      cases hi

end Sequence

namespace Node

variable {nodes more : List Node} {input next : StepInput} {t u : List Happening} {p q : Sequence}
  {cs : List Course}

/-- How a sequence may end. -/
theorem ends_of_visitSequence (h : visitSequence nodes input t (some (.ok (q, cs)))) :
    match q with
    | .halted o => o.halts = true
    | .completed o _ _ => o.halts = false ∧ nodes ≠ []
    | .empty _ => nodes = [] := by
  induction nodes generalizing input t q cs with
  | nil =>
    obtain ⟨-, hq⟩ := h
    cases hq _ rfl
    rfl
  | cons n rest ih =>
    unfold visitSequence at h
    cases h with
    | @next _ _ a _ h hb =>
      obtain ⟨o, c⟩ := a
      dsimp only at hb
      cases ho : o.halts with
      | true =>
        rw [if_pos ho] at hb
        cases hb.2 _ rfl
        exact ho
      | false =>
        rw [if_neg (by simp [ho])] at hb
        obtain ⟨_ | _ | ⟨p, ds⟩, hp, hr⟩ := hb <;> cases hr
        have hends := ih hp
        cases p with
        | halted o' => exact hends
        | completed o' next produced => exact ⟨hends.1, nofun⟩
        | empty input' => exact ⟨ho, nofun⟩

/-- Nodes after those of a sequence that did not halt go on from the input that it hands on. -/
theorem visitSequence_append {r : Option (Except Fault (Sequence × List Course))}
    (h : visitSequence nodes input t (some (.ok (p, cs)))) (hp : p.next? = some next)
    (hm : visitSequence more next u r) :
    visitSequence (nodes ++ more) input (t ++ u)
      (r.map (Except.map fun (q, ds) => (p.andThen q, cs ++ ds))) := by
  induction nodes generalizing input t p cs with
  | nil =>
    obtain ⟨rfl, hq⟩ := h
    cases hq _ rfl
    cases hp
    rcases r with _ | _ | _ <;> exact hm
  | cons n rest ih =>
    rw [List.cons_append]
    unfold visitSequence at h ⊢
    cases h with
    | @next t₁ t₂ a _ h hb =>
      obtain ⟨o, c⟩ := a
      dsimp only at hb
      cases ho : o.halts with
      | true =>
        rw [if_pos ho] at hb
        cases hb.2 _ rfl
        cases hp
      | false =>
        rw [if_neg (by simp [ho])] at hb
        obtain ⟨_ | _ | ⟨p', cs'⟩, hrest, hr⟩ := hb <;> cases hr
        rw [Sequence.next?_after] at hp
        rw [List.append_assoc]
        refine .next h ?_
        dsimp only
        rw [if_neg (by simp [ho])]
        refine ⟨_, ih hrest hp, ?_⟩
        rcases r with _ | _ | ⟨q, ds⟩
        · rfl
        · rfl
        · simp [Except.map, Sequence.after_andThen]

theorem visitSequence_append_ok {ds : List Course}
    (h : visitSequence nodes input t (some (.ok (p, cs)))) (hp : p.next? = some next)
    (hm : visitSequence more next u (some (.ok (q, ds)))) :
    visitSequence (nodes ++ more) input (t ++ u) (some (.ok (p.andThen q, cs ++ ds))) :=
  visitSequence_append h hp hm

end Node

namespace Loop

/-! ## End conditions that are tasks -/

section Asking

variable (name : String) (maxIterations : Nat) (ask : List StepOutput → RunTask Bool)
  (ctx : RunContext) (body : StepInput → RunTask Sequence)

/-- One iteration of a loop that asks its end condition in the course of its run. -/
def turnAsking (isLast : Bool) (done : List StepOutput) (input : StepInput)
    (otherwise : StepOutput → List StepOutput → StepInput → RunTask LoopResult) :
    RunTask LoopResult := do
  ctx.checkCancelled
  ctx.emit (.loopIterationStarted name (done.length + 1) maxIterations)
  match ← body input with
  | .halted output =>
    ctx.emit (.loopIterationCompleted name (done.length + 1) false)
    return finish name output (done ++ [output]) .interrupted
  | .completed output next _ => conclude output next
  | .empty next => conclude (Node.passthrough name .loop next) next
where
  conclude (output : StepOutput) (next : StepInput) : RunTask LoopResult := do
    let converged ← ask (done ++ [output])
    ctx.emit (.loopIterationCompleted name (done.length + 1) (!converged && !isLast))
    if converged then return finish name output (done ++ [output]) .converged
    else otherwise output (done ++ [output]) next

/-- Iterates with a number of iterations allowed after this one. -/
def iterateAsking : Nat → List StepOutput → StepInput → RunTask LoopResult
  | 0, done, input =>
    turnAsking name maxIterations ask ctx body true done input fun output done _ =>
      return finish name output done .exhausted
  | left + 1, done, input =>
    turnAsking name maxIterations ask ctx body false done input fun _ done next =>
      iterateAsking left done next

/-- Runs a loop that may iterate at least once. -/
def runAsking (input : StepInput) : RunTask LoopResult :=
  iterateAsking name maxIterations ask ctx body (maxIterations - 1) [] input

end Asking

section Equation

variable {name : String} {maxIterations : Nat}
  {ends : Option (List StepOutput → Except String Bool)} {ctx : RunContext}
  {body : StepInput → RunTask Sequence}

private theorem iterate_eq_iterateAsking (left : Nat) (done : List StepOutput) (input : StepInput) :
    iterate name maxIterations ends ctx body left done input =
      iterateAsking name maxIterations (fun done => RunTask.ofResult (converged name ends done)) ctx body
        left done input := by
  induction left generalizing done input with
  | zero => rfl
  | succ left ih =>
    unfold iterate iterateAsking
    simp only [ih]
    rfl

/-- A loop asks its end condition by evaluating it. -/
theorem run_eq_runAsking (hm : 0 < maxIterations) (input : StepInput) :
    run name maxIterations ends ctx body input =
      runAsking name maxIterations (fun done => RunTask.ofResult (converged name ends done)) ctx body
        input := by
  obtain ⟨left, rfl⟩ : ∃ left, maxIterations = left + 1 := ⟨_, (Nat.succ_pred_eq_of_pos hm).symm⟩
  exact iterate_eq_iterateAsking left [] input

end Equation

/-! ## Rounds -/

/-- An iteration after which a loop went on: what its body told, its output, and what was told when the
end condition was asked. -/
structure Round where
  told : List Happening
  output : StepOutput
  asked : List Happening

/-- What all rounds told, one after another. -/
def told (rounds : List Round) : List Happening := rounds.flatMap fun x => x.told ++ x.asked

theorem told_concat (rounds : List Round) (x : Round) :
    told (rounds ++ [x]) = told rounds ++ (x.told ++ x.asked) := by
  simp [told]

section Account

variable (name : String) (maxIterations : Nat) (body : StepInput → TaskAccount Sequence)
  (ask : List StepOutput → TaskAccount Bool) (input : StepInput)

/-- Rounds after which a loop goes on, from the input that the last of them hands on. -/
inductive Goes : List Round → StepInput → Prop
  | start : Goes [] input
  | next {rounds : List Round} {current next : StepInput} {t u : List Happening} {q : Sequence}
      (h : Goes rounds current) (hb : body current t (some (.ok q))) (hq : q.next? = some next)
      (ha : ask (rounds.map Round.output ++ [q.output name]) u (some (.ok false))) :
      Goes (rounds ++ [⟨t, q.output name, u⟩]) next

/-- What a loop tells: its rounds, and how far it has come in the next iteration. -/
inductive Iterates : TaskAccount LoopResult
  | under {rounds : List Round} {current : StepInput} {t : List Happening}
      (h : Goes name body ask input rounds current) (hlt : rounds.length < maxIterations)
      (hb : body current t none) : Iterates (told rounds ++ t) none
  | cancelled {rounds : List Round} {current : StepInput}
      (h : Goes name body ask input rounds current) (hlt : rounds.length < maxIterations) :
      Iterates (told rounds) (some (.error .cancelled))
  | broken {rounds : List Round} {current : StepInput} {t : List Happening} {fault : Fault}
      (h : Goes name body ask input rounds current) (hlt : rounds.length < maxIterations)
      (hb : body current t (some (.error fault))) :
      Iterates (told rounds ++ t) (some (.error fault))
  | interrupted {rounds : List Round} {current : StepInput} {t : List Happening} {o : StepOutput}
      {r : Option (Except Fault LoopResult)} (h : Goes name body ask input rounds current)
      (hlt : rounds.length < maxIterations) (hb : body current t (some (.ok (.halted o))))
      (hr : ∀ p, r = some p →
        p = .ok (finish name o (rounds.map Round.output ++ [o]) .interrupted)) :
      Iterates (told rounds ++ t) r
  | asking {rounds : List Round} {current next : StepInput} {t u : List Happening} {q : Sequence}
      (h : Goes name body ask input rounds current) (hlt : rounds.length < maxIterations)
      (hb : body current t (some (.ok q))) (hq : q.next? = some next)
      (ha : ask (rounds.map Round.output ++ [q.output name]) u none) :
      Iterates (told rounds ++ (t ++ u)) none
  | failed {rounds : List Round} {current next : StepInput} {t u : List Happening} {q : Sequence}
      {fault : Fault} (h : Goes name body ask input rounds current)
      (hlt : rounds.length < maxIterations) (hb : body current t (some (.ok q)))
      (hq : q.next? = some next)
      (ha : ask (rounds.map Round.output ++ [q.output name]) u (some (.error fault))) :
      Iterates (told rounds ++ (t ++ u)) (some (.error fault))
  | ended {rounds : List Round} {current next : StepInput} {t u : List Happening} {q : Sequence}
      {holds : Bool} {r : Option (Except Fault LoopResult)}
      (h : Goes name body ask input rounds current) (hlt : rounds.length < maxIterations)
      (hb : body current t (some (.ok q))) (hq : q.next? = some next)
      (ha : ask (rounds.map Round.output ++ [q.output name]) u (some (.ok holds)))
      (hover : holds = true ∨ rounds.length + 1 = maxIterations)
      (hr : ∀ p, r = some p →
        p = .ok (finish name (q.output name) (rounds.map Round.output ++ [q.output name])
          (if holds then .converged else .exhausted))) :
      Iterates (told rounds ++ (t ++ u)) r

end Account

section Adequacy

variable {name : String} {maxIterations : Nat} {ctx : RunContext} {input : StepInput}
  {body : StepInput → RunTask Sequence} {B : StepInput → TaskAccount Sequence}
  {ask : List StepOutput → RunTask Bool} {Q : List StepOutput → TaskAccount Bool}
  {rounds : List Round} {current : StepInput}

/-- An iteration that did not halt: the end condition is asked, and the loop is over or goes on. -/
private theorem obeys_concludeAsking (ha : ∀ done, RunTask.Obeys ctx (ask done) (Q done))
    (h : Goes name B Q input rounds current) (hlt : rounds.length < maxIterations) {isLast : Bool}
    {otherwise : StepOutput → List StepOutput → StepInput → RunTask LoopResult}
    {t : List Happening} {q : Sequence} {next : StepInput} (hb : B current t (some (.ok q)))
    (hq : q.next? = some next)
    (ho : ∀ u, Q (rounds.map Round.output ++ [q.output name]) u (some (.ok false)) →
      Iterates name maxIterations B Q input (told rounds ++ (t ++ u)) none ∧
      RunTask.Obeys ctx
        (otherwise (q.output name) (rounds.map Round.output ++ [q.output name]) next)
        ((Iterates name maxIterations B Q input).after (told rounds ++ (t ++ u)))) :
    RunTask.Obeys ctx
      (turnAsking.conclude name ask ctx isLast (rounds.map Round.output) otherwise (q.output name)
        next)
      ((Iterates name maxIterations B Q input).after (told rounds ++ t)) := by
  unfold turnAsking.conclude
  refine .seq (ha _) (fun u hu => ?_) (fun u fault hu => ?_) fun u holds hu => ?_
  · rw [Account.after, List.append_assoc]
    exact .asking h hlt hb hq hu
  · rw [Account.after, List.append_assoc]
    exact .failed h hlt hb hq hu
  rw [Account.after_after, List.append_assoc]
  cases holds with
  | true =>
    have hover {r : Option (Except Fault LoopResult)} (hr) :
        Iterates name maxIterations B Q input (told rounds ++ (t ++ u)) r :=
      .ended h hlt hb hq hu (.inl rfl) hr
    refine .silent (RunContext.silent_emit ctx _) ?_ fun _ => .pure ?_
    · exact (Account.after_nil_apply _ _ _).2 (hover fun p hp => by cases hp)
    · exact (Account.after_nil_apply _ _ _).2 (hover fun p hp => (Option.some.inj hp).symm)
  | false =>
    obtain ⟨hnone, hotherwise⟩ := ho u hu
    exact .silent (RunContext.silent_emit ctx _) ((Account.after_nil_apply _ _ _).2 hnone)
      fun _ => hotherwise

theorem obeys_turnAsking (hb : ∀ input, RunTask.Obeys ctx (body input) (B input))
    (hb₀ : ∀ input, B input [] none) (ha : ∀ done, RunTask.Obeys ctx (ask done) (Q done))
    (h : Goes name B Q input rounds current) (hlt : rounds.length < maxIterations) {isLast : Bool}
    {otherwise : StepOutput → List StepOutput → StepInput → RunTask LoopResult}
    (ho : ∀ t u q next, B current t (some (.ok q)) → q.next? = some next →
      Q (rounds.map Round.output ++ [q.output name]) u (some (.ok false)) →
      Iterates name maxIterations B Q input (told rounds ++ (t ++ u)) none ∧
      RunTask.Obeys ctx
        (otherwise (q.output name) (rounds.map Round.output ++ [q.output name]) next)
        ((Iterates name maxIterations B Q input).after (told rounds ++ (t ++ u)))) :
    RunTask.Obeys ctx
      (turnAsking name maxIterations ask ctx body isLast (rounds.map Round.output) current otherwise)
      ((Iterates name maxIterations B Q input).after (told rounds)) := by
  have hbegun : (Iterates name maxIterations B Q input).after (told rounds) [] none :=
    .under h hlt (hb₀ current)
  unfold turnAsking
  refine .checkCancelled hbegun ((Account.after_nil_apply _ _ _).2 (.cancelled h hlt)) ?_
  refine .silent (RunContext.silent_emit ctx _) hbegun fun _ => ?_
  refine .seq (hb current) (fun t ht => .under h hlt ht) (fun t fault ht => .broken h hlt ht)
    fun t q ht => ?_
  rw [Account.after_after]
  cases q with
  | halted o =>
    have hend {r : Option (Except Fault LoopResult)} (hr) :
        Iterates name maxIterations B Q input (told rounds ++ t) r := .interrupted h hlt ht hr
    refine .silent (RunContext.silent_emit ctx _) ?_ fun _ => .pure ?_
    · exact (Account.after_nil_apply _ _ _).2 (hend fun p hp => by cases hp)
    · exact (Account.after_nil_apply _ _ _).2 (hend fun p hp => (Option.some.inj hp).symm)
  | completed o next produced =>
    exact obeys_concludeAsking ha h hlt ht rfl fun u => ho t u _ _ ht rfl
  | empty next => exact obeys_concludeAsking ha h hlt ht rfl fun u => ho t u _ _ ht rfl

theorem obeys_iterateAsking (hb : ∀ input, RunTask.Obeys ctx (body input) (B input))
    (hb₀ : ∀ input, B input [] none) (ha : ∀ done, RunTask.Obeys ctx (ask done) (Q done))
    (left : Nat) (h : Goes name B Q input rounds current)
    (hm : rounds.length + left + 1 = maxIterations) :
    RunTask.Obeys ctx
      (iterateAsking name maxIterations ask ctx body left (rounds.map Round.output) current)
      ((Iterates name maxIterations B Q input).after (told rounds)) := by
  induction left generalizing rounds current with
  | zero =>
    have hlt : rounds.length < maxIterations := by omega
    refine obeys_turnAsking hb hb₀ ha h hlt fun t u q next ht hq hu => ?_
    have hover {r : Option (Except Fault LoopResult)} (hr) :
        Iterates name maxIterations B Q input (told rounds ++ (t ++ u)) r :=
      .ended h hlt ht hq hu (.inr hm) hr
    refine ⟨hover fun p hp => (by cases hp), .pure ?_⟩
    exact (Account.after_nil_apply _ _ _).2 (hover fun p hp => (Option.some.inj hp).symm)
  | succ left ih =>
    refine obeys_turnAsking hb hb₀ ha h (by omega) fun t u q next ht hq hu => ?_
    have hnext := Goes.next h ht hq hu
    have hlen : (rounds ++ [(⟨t, q.output name, u⟩ : Round)]).length = rounds.length + 1 := by simp
    have hobeys := ih hnext (by omega)
    rw [told_concat] at hobeys
    refine ⟨?_, by simpa using hobeys⟩
    have hunder : Iterates name maxIterations B Q input (told (rounds ++ [⟨t, _, u⟩]) ++ []) none :=
      .under hnext (by omega) (hb₀ next)
    rwa [told_concat, List.append_nil] at hunder

/-- A loop does what its account says, whatever its end condition tells when it is asked. -/
theorem obeys_runAsking (hm : 0 < maxIterations)
    (hb : ∀ input, RunTask.Obeys ctx (body input) (B input)) (hb₀ : ∀ input, B input [] none)
    (ha : ∀ done, RunTask.Obeys ctx (ask done) (Q done)) (input : StepInput) :
    RunTask.Obeys ctx (runAsking name maxIterations ask ctx body input)
      (Iterates name maxIterations B Q input) :=
  obeys_iterateAsking hb hb₀ ha (maxIterations - 1) .start (by simp; omega)

end Adequacy

/-! ## What rounds come to -/

/-- What the bodies of all rounds told, one after another. -/
def bodies (rounds : List Round) : List Happening := rounds.flatMap Round.told

/-- What a loop over some nodes tells of its body. -/
abbrev bodyOf (children : List Node) : StepInput → TaskAccount Sequence := fun input =>
  (Node.visitSequence children input).map Prod.fst

/-- The outputs of iterations, by what was told: those of a sequence over the body written once, twice
and so on, up to all of them. -/
def Repeats (name : String) (children : List Node) (input : StepInput) (outputs : List StepOutput)
    (t : List Happening) : Prop :=
  ∀ i, 0 < i → i ≤ outputs.length → ∃ u v q courses, t = u ++ v ∧ (i = outputs.length → v = []) ∧
    Node.visitSequence (List.replicate i children).flatten input u (some (.ok (q, courses))) ∧
    outputs[i - 1]? = some (q.output name)

section Rounds

variable {name : String} {children : List Node} {input current : StepInput} {rounds : List Round}
  {Q : List StepOutput → TaskAccount Bool} {t : List Happening} {q : Sequence} {cs : List Course}

theorem flatten_replicate_concat (n : Nat) (children : List Node) :
    (List.replicate (n + 1) children).flatten = (List.replicate n children).flatten ++ children := by
  rw [List.replicate_succ', List.flatten_append, List.flatten_singleton]

/-- The output of an iteration halts when the iteration halted. -/
theorem halts_output (h : Node.visitSequence children input t (some (.ok (q, cs)))) :
    (q.output name).halts = q.next?.isNone := by
  have hends := Node.ends_of_visitSequence h
  cases q with
  | halted o => exact hends
  | completed o next produced => exact hends.1
  | empty next => rfl

variable (h : Goes name (bodyOf children) Q input rounds current)

include h

/-- Rounds are one sequence over the body written that many times. -/
theorem Goes.sequence : ∃ q courses,
    Node.visitSequence (List.replicate rounds.length children).flatten input (bodies rounds)
      (some (.ok (q, courses))) ∧ q.next? = some current := by
  induction h with
  | start => exact ⟨_, [], ofResult_some _, rfl⟩
  | @next rounds current next t u q _ hb hq _ ih =>
    obtain ⟨p, cs, hp, hnext⟩ := ih
    obtain ⟨_ | _ | ⟨q', ds⟩, hq', hr⟩ := hb <;> cases hr
    have happend := Node.visitSequence_append_ok hp hnext hq'
    rw [← flatten_replicate_concat] at happend
    refine ⟨p.andThen q', cs ++ ds, ?_, (Sequence.next?_andThen hnext).trans hq⟩
    simpa [bodies] using happend

theorem Goes.repeats_concat (ht : Node.visitSequence children current t (some (.ok (q, cs))))
    (hr : Repeats name children input (rounds.map Round.output) (bodies rounds)) :
    Repeats name children input (rounds.map Round.output ++ [q.output name]) (bodies rounds ++ t) := by
  intro i hi hle
  rw [List.length_append, List.length_singleton] at hle
  rcases Nat.lt_or_eq_of_le hle with hlt | rfl
  · obtain ⟨u, v, p, ds, htold, -, hp, hout⟩ := hr i hi (by omega)
    refine ⟨u, v ++ t, p, ds, by rw [htold, List.append_assoc], fun hlen => ?_, hp, ?_⟩
    · rw [List.length_append, List.length_singleton] at hlen
      omega
    · rwa [List.getElem?_append_left (by omega)]
  · obtain ⟨p, ds, hp, hnext⟩ := h.sequence
    have happend := Node.visitSequence_append_ok hp hnext ht
    rw [← flatten_replicate_concat] at happend
    refine ⟨_, [], p.andThen q, ds ++ cs, (List.append_nil _).symm, fun _ => rfl, ?_, ?_⟩
    · simpa using happend
    · -- An empty body hands its input on, time and again.
      have hempty (i : StepInput) (hq : q = .empty i) : ∃ i', p = .empty i' := by
        subst hq
        have hnil : children = [] := Node.ends_of_visitSequence ht
        subst hnil
        have hends := Node.ends_of_visitSequence hp
        cases p with
        | halted o => cases hnext
        | completed o next produced => exact absurd (by simp) hends.2
        | empty i' => exact ⟨i', rfl⟩
      simp [Sequence.output_andThen hnext hempty]

theorem Goes.repeats : Repeats name children input (rounds.map Round.output) (bodies rounds) := by
  induction h with
  | start =>
    intro i hi hle
    simp at hle
    omega
  | @next rounds current next t u q h hb hq _ ih =>
    obtain ⟨_ | _ | ⟨q', ds⟩, hq', hr⟩ := hb <;> cases hr
    simpa [bodies] using h.repeats_concat hq' ih

/-- No round halted. -/
theorem Goes.calm : ∀ x ∈ rounds, x.output.halts = false := by
  induction h with
  | start => exact fun _ hx => nomatch hx
  | next _ hb hq _ ih =>
    intro x hx
    rcases List.mem_append.1 hx with hx | hx
    · exact ih x hx
    · obtain ⟨_ | _ | ⟨q', ds⟩, hq', hr⟩ := hb <;> cases hr
      cases List.mem_singleton.1 hx
      exact (halts_output hq').trans (by rw [hq]; rfl)

omit h in
/-- After each round the end condition was asked about all outputs so far. -/
theorem Goes.asked {B : StepInput → TaskAccount Sequence} (h : Goes name B Q input rounds current)
    {i : Nat} {x : Round} (hx : rounds[i]? = some x) :
    Q ((rounds.map Round.output).take (i + 1)) x.asked (some (.ok false)) := by
  induction h with
  | start => cases hx
  | @next rounds current next t u q _ _ _ ha ih =>
    rw [List.map_append]
    by_cases hi : i < rounds.length
    · rw [List.getElem?_append_left hi] at hx
      rw [List.take_append_of_le_length (by rwa [List.length_map])]
      exact ih hx
    · have hlen := (List.getElem?_eq_some_iff.1 hx).1
      rw [List.length_append, List.length_singleton] at hlen
      obtain rfl : i = rounds.length := by omega
      rw [List.getElem?_concat_length] at hx
      cases hx
      rwa [List.take_of_length_le (by simp)]

end Rounds

end Loop

end WorkflowEngine
