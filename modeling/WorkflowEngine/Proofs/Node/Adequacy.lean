import WorkflowEngine.Proofs.Step.Calls

/-!
# Nodes and their visits

The code of a node agrees with the account of its visits, whatever its executors do and in whatever
order its fibers get their turns. Main statement: `execute` obeys `visit`.
-/

namespace WorkflowEngine

open RunTask TaskAccount

variable {ctx : RunContext}

namespace Node

theorem dates_ite (n : Node) (o : StepOutput) (ms : Nat) :
    n.Dates o (if o.durationMs.isNone || !n.isLeaf && o.stepName == n.name then
      { o with durationMs := some ms } else o) := by
  unfold Dates
  split
  · exact ⟨ms, rfl⟩
  · rfl

/-- A node that is told of around work which agrees with an account. -/
theorem obeys_reported {n : Node} {input : StepInput} {A : TaskAccount (StepOutput × Course)}
    {work : RunTask StepOutput} (hw : RunTask.Obeys ctx work (A.map Prod.fst)) (h₀ : A [] none) :
    RunTask.Obeys ctx (n.reported input ctx work) ((n.Around input A).map Prod.fst) := by
  unfold reported
  refine .checkCancelled ⟨none, .idle, rfl⟩ ⟨some (.error .cancelled), .cancelled, rfl⟩ ?_
  refine .note rfl ⟨none, .idle, rfl⟩ ?_
  have hbegun : ((n.Around input A).map Prod.fst).after [.entered n.name input] [] none :=
    ⟨none, .under h₀, rfl⟩
  refine .silent (RunContext.silent_emit ctx _) hbegun fun _ => ?_
  refine .silent (RunContext.silent_time ctx) hbegun fun started => ?_
  refine .seq hw ?_ ?_ fun u output hu => ?_
  · rintro u ⟨_ | _, hu, hr⟩
    · exact ⟨none, .under hu, rfl⟩
    · cases hr
  · rintro u fault ⟨_ | _ | _, hu, hr⟩ <;> cases hr
    exact ⟨some (.error fault), .fault hu, rfl⟩
  obtain ⟨_ | _ | ⟨output, course⟩, hu, hr⟩ := hu <;> cases hr
  have hunder :
      (((n.Around input A).map Prod.fst).after [.entered n.name input]).after u [] none := by
    simp only [Account.after, List.cons_append, List.nil_append, List.append_nil]
    exact ⟨none, .under hu, rfl⟩
  refine .silent (RunContext.silent_time ctx) hunder fun ended => ?_
  dsimp only
  have ho := n.dates_ite output (ended - started)
  generalize (if output.durationMs.isNone || !n.isLeaf && output.stepName == n.name then
    { output with durationMs := some (ended - started) } else output) = output' at ho ⊢
  -- Before and after the last event the visit stands the same.
  have hgave {r : Option (Except Fault (StepOutput × Course))}
      (hr : ∀ p, r = some p → p = .ok (output', course)) :
      ((((n.Around input A).map Prod.fst).after [.entered n.name input]).after u).after
        [.gave n.name output'] [] (r.map (Except.map Prod.fst)) := by
    simp only [Account.after, List.cons_append, List.nil_append, List.append_nil]
    exact ⟨r, .gave hu ho hr, rfl⟩
  refine .note rfl hunder ?_
  refine .silent (RunContext.silent_emit ctx _) (hgave (r := none) (by simp)) fun _ => ?_
  exact .pure (hgave (r := some (.ok (output', course))) fun _ h => (Option.some.inj h).symm)

/-! ## Accounts begin with nothing -/

theorem together_begins {α : Type} {As : List (TaskAccount α)} (h : ∀ A ∈ As, A [] none) :
    Account.together As [] none := by
  induction As with
  | nil => exact ⟨rfl, fun _ h => nomatch h⟩
  | cons A rest ih =>
    exact ⟨[], none, [], none, h A (by simp), ih fun B hB => h B (by simp [hB]), .nil,
      fun _ h => nomatch h⟩

theorem visitSequence_begins (nodes : List Node) (input : StepInput) :
    visitSequence nodes input [] none := by
  cases nodes with
  | nil => exact ⟨rfl, fun _ h => nomatch h⟩
  | cons n rest => exact bind_begins .idle

theorem visitChoice_begins (input : StepInput) (name : String) (choices : List Node) :
    visitChoice input name choices [] none := by
  induction choices with
  | nil => exact ⟨rfl, fun _ h => nomatch h⟩
  | cons n rest ih =>
    unfold visitChoice
    split
    · exact .idle
    · exact ih

theorem visitAll_begins (input : StepInput) (children : List Node) :
    ∀ A ∈ visitAll input children, A [] none := by
  induction children with
  | nil => simp [visitAll]
  | cons n rest ih =>
    intro A hA
    rcases List.mem_cons.1 hA with rfl | hA
    · exact .idle
    · exact ih A hA

end Node

namespace Loop

theorem round_begins {name : String} {ends : Option (List StepOutput → Except String Bool)}
    {body : StepInput → TaskAccount (Sequence × List Course)} {done : List StepOutput}
    {input : StepInput}
    {otherwise : StepOutput → List StepOutput → StepInput → TaskAccount (LoopResult × List Course)}
    (h : body input [] none) : round name ends body done input otherwise [] none :=
  .inl (bind_begins h)

theorem rounds_begins {name : String} {ends : Option (List StepOutput → Except String Bool)}
    {body : StepInput → TaskAccount (Sequence × List Course)} (h : ∀ input, body input [] none)
    (left : Nat) (done : List StepOutput) (input : StepInput) :
    rounds name ends body left done input [] none := by
  cases left <;> exact round_begins (h input)

theorem visit_begins {name : String} {maxIterations : Nat}
    {ends : Option (List StepOutput → Except String Bool)}
    {body : StepInput → TaskAccount (Sequence × List Course)} (h : ∀ input, body input [] none)
    (input : StepInput) : visit name maxIterations ends body input [] none := by
  cases maxIterations with
  | zero => exact ofResult_none _
  | succ left => exact rounds_begins h left [] input

section Iteration

variable {name : String} {maxIterations : Nat}
  {ends : Option (List StepOutput → Except String Bool)} {body : StepInput → RunTask Sequence}
  {A : StepInput → TaskAccount (Sequence × List Course)}

private theorem obeys_conclude {isLast : Bool} {done : List StepOutput}
    {otherwise : StepOutput → List StepOutput → StepInput → RunTask LoopResult}
    {B : StepOutput → List StepOutput → StepInput → TaskAccount (LoopResult × List Course)}
    (ho : ∀ output done next,
      RunTask.Obeys ctx (otherwise output done next) ((B output done next).map Prod.fst))
    (h₀ : ∀ output done next, B output done next [] none) (iteration : Nat) (output : StepOutput)
    (next : StepInput) (visits : List Course) :
    RunTask.Obeys ctx
      (turn.conclude name ends ctx isLast done otherwise iteration output next)
      ((round.conclude name ends done B output next visits).map Prod.fst) := by
  unfold turn.conclude round.conclude
  refine .given fun converged => ?_
  cases converged with
  | true =>
    exact .silent (RunContext.silent_emit ctx _) (map_begins (ofResult_none _)) fun _ => .ret rfl
  | false =>
    simp only [Bool.false_eq_true, if_false, map_map]
    exact .silent (RunContext.silent_emit ctx _) (map_begins (h₀ _ _ _)) fun _ => ho _ _ _

theorem obeys_turn {isLast : Bool} {done : List StepOutput} {input : StepInput}
    {otherwise : StepOutput → List StepOutput → StepInput → RunTask LoopResult}
    {B : StepOutput → List StepOutput → StepInput → TaskAccount (LoopResult × List Course)}
    (hb : ∀ input, RunTask.Obeys ctx (body input) ((A input).map Prod.fst))
    (hb₀ : ∀ input, A input [] none)
    (ho : ∀ output done next,
      RunTask.Obeys ctx (otherwise output done next) ((B output done next).map Prod.fst))
    (h₀ : ∀ output done next, B output done next [] none) :
    RunTask.Obeys ctx (turn name maxIterations ends ctx body isLast done input otherwise)
      ((round name ends A done input B).map Prod.fst) := by
  unfold turn
  have hround : round name ends A done input B [] none := round_begins (hb₀ input)
  have hbegun : (round name ends A done input B).map Prod.fst [] none := map_begins hround
  refine .checkCancelled hbegun ⟨some (.error .cancelled), .inr ⟨rfl, rfl⟩, rfl⟩ ?_
  refine .silent (RunContext.silent_emit ctx _) hbegun fun _ => ?_
  have hmono {A : TaskAccount (LoopResult × List Course)} {t : List Happening}
      {r : Option (Except Fault LoopResult)} (h : A.map Prod.fst t r) :
      (unlessCancelled A).map Prod.fst t r := by
    obtain ⟨q, hq, hr⟩ := h
    exact ⟨q, .inl hq, hr⟩
  refine Fiber.Obeys.mono (RunTask.Obeys.bind (hb input) fun (q, visits) => ?_) fun _ _ => hmono
  cases q with
  | halted output =>
    exact .silent (RunContext.silent_emit ctx _) (map_begins (ofResult_none _)) fun _ => .ret rfl
  | completed output next produced => exact obeys_conclude ho h₀ _ _ _ _
  | empty next => exact obeys_conclude ho h₀ _ _ _ _

theorem obeys_iterate (hb : ∀ input, RunTask.Obeys ctx (body input) ((A input).map Prod.fst))
    (hb₀ : ∀ input, A input [] none) (left : Nat) (done : List StepOutput) (input : StepInput) :
    RunTask.Obeys ctx (iterate name maxIterations ends ctx body left done input)
      ((rounds name ends A left done input).map Prod.fst) := by
  induction left generalizing done input with
  | zero => exact obeys_turn hb hb₀ (fun _ _ _ => .ret rfl) fun _ _ _ => ofResult_none _
  | succ left ih =>
    exact obeys_turn hb hb₀ (fun _ _ _ => ih _ _) fun _ _ _ => rounds_begins hb₀ left _ _

theorem obeys_run (hb : ∀ input, RunTask.Obeys ctx (body input) ((A input).map Prod.fst))
    (hb₀ : ∀ input, A input [] none) (input : StepInput) :
    RunTask.Obeys ctx (run name maxIterations ends ctx body input)
      ((visit name maxIterations ends A input).map Prod.fst) := by
  cases maxIterations with
  | zero => exact ⟨_, ofResult_some _, rfl⟩
  | succ left => exact obeys_iterate hb hb₀ left [] input

end Iteration

end Loop

namespace Join

theorem together_map {α β : Type} {g : α → β} {As : List (TaskAccount α)} {t : List Happening}
    {r : Option (List (Except Fault β))} (h : Account.together (As.map (TaskAccount.map g)) t r) :
    ∃ q, Account.together As t q ∧
      ∀ rs, r = some rs → ∃ qs, q = some qs ∧ rs = qs.map (Except.map g) := by
  induction As generalizing t r with
  | nil =>
    exact ⟨some [], ⟨h.1, fun _ h => (Option.some.inj h).symm⟩, fun rs hr => ⟨[], rfl, h.2 rs hr⟩⟩
  | cons A rest ih =>
    obtain ⟨u, _, v, q, ⟨p, hp, rfl⟩, hq, hi, hr⟩ := h
    obtain ⟨q', hq', hqs⟩ := ih hq
    refine ⟨p.bind fun a => q'.map (a :: ·), ⟨u, p, v, q', hp, hq', hi, ?_⟩, ?_⟩
    · intro as has
      obtain ⟨a, rfl, has⟩ := Option.bind_eq_some_iff.1 has
      obtain ⟨bs, rfl, rfl⟩ := Option.map_eq_some_iff.1 has
      exact ⟨a, bs, rfl, rfl, rfl⟩
    · rintro rs rfl
      obtain ⟨b, bs, hb, rfl, rfl⟩ := hr rs rfl
      obtain ⟨a, rfl, rfl⟩ := Option.map_eq_some_iff.1 hb
      obtain ⟨qs, rfl, rfl⟩ := hqs bs rfl
      exact ⟨a :: qs, rfl, rfl⟩

theorem obeys_join {name : String} {names : List String}
    {children : List (Fiber Engine (Except Fault StepOutput))}
    {As : List (TaskAccount (StepOutput × Course))}
    (h : List.Forall₂ (fun p A => Fiber.Obeys ctx.discipline p A) children
      (As.map (TaskAccount.map Prod.fst))) {finish : StepOutput → Fiber Engine Unit}
    (hf : ∀ output, ctx.Silent (finish output)) :
    RunTask.Obeys ctx
      (do
        let results ← liftM (Fiber.all children)
        let output ← RunTask.ofResult (result name names results)
        liftM (finish output)
        return output)
      ((visit name names As).map Prod.fst) := by
  refine .lift (.all h) (fun t ht => ?_) fun t results ht => ?_
  · obtain ⟨q, hq, -⟩ := together_map ht
    exact ⟨none, ⟨q, hq, fun _ h => nomatch h⟩, rfl⟩
  · obtain ⟨q, hq, hqs⟩ := together_map ht
    obtain ⟨qs, rfl, rfl⟩ := hqs _ rfl
    have hend {r : Option (Except Fault (StepOutput × Course))}
        (hr : ∀ p, r = some p → p = (result name names (qs.map (Except.map Prod.fst))).map
          fun output => (output, .parallel (courses qs))) :
        (((visit name names As).map Prod.fst).after t) [] (r.map (Except.map Prod.fst)) :=
      (Account.after_nil_apply _ _ _).2
        ⟨r, ⟨some qs, hq, fun p hp => ⟨qs, rfl, hr p hp⟩⟩, rfl⟩
    cases hres : result name names (qs.map (Except.map Prod.fst)) with
    | error fault =>
      rw [hres] at hend
      exact hend (r := some (.error fault)) fun p hp => (Option.some.inj hp).symm
    | ok output =>
      rw [hres] at hend
      have hunder := hend (r := none) fun _ h => nomatch h
      refine RunTask.Obeys.silent (hf output) hunder fun _ => .pure ?_
      exact hend (r := some (.ok (output, _))) fun p hp => (Option.some.inj hp).symm

end Join

namespace Node

theorem visitWork_begins (input : StepInput) (n : Node) : visitWork input n [] none := by
  cases n with
  | step s => exact Step.calls_begins s input
  | steps name _ children => exact map_begins (visitSequence_begins children input)
  | condition name _ test children => exact bind_begins (ofResult_none _)
  | loop name _ maxIterations ends children =>
    exact map_begins (Loop.visit_begins (visitSequence_begins children) input)
  | parallel name _ children =>
    exact ⟨none, together_begins (visitAll_begins input children), fun _ h => nomatch h⟩
  | router name _ select choices => exact bind_begins (ofResult_none _)

mutual

private theorem obeys_perform (input : StepInput) (ctx : RunContext) : (n : Node) →
    RunTask.Obeys ctx (perform input ctx n) ((visitWork input n).map Prod.fst)
  | .step s => s.obeys_execute input
  | .steps name _ children => by
    unfold perform visitWork
    exact .finish (obeys_runSequence ctx children input) fun _ => rfl
  | .condition name _ test children => by
    unfold perform visitWork
    refine .given fun holds => ?_
    cases holds with
    | true =>
      refine .silent (RunContext.silent_emit ctx _)
        (map_begins (map_begins (visitSequence_begins _ _))) fun _ => ?_
      exact .finish (obeys_runSequence ctx children input) fun _ => rfl
    | false =>
      exact .silent (RunContext.silent_emit ctx _) (map_begins (ofResult_none _)) fun _ => .ret rfl
  | .loop name _ maxIterations ends children => by
    unfold perform visitWork
    exact .finish (Loop.obeys_run (obeys_runSequence ctx children)
      (visitSequence_begins children) input) fun _ => rfl
  | .parallel name _ children => by
    unfold perform visitWork
    refine .silent (RunContext.silent_emit ctx _) ?_ fun _ => ?_
    · have hbegins := together_begins (visitAll_begins input children)
      exact ⟨none, ⟨none, hbegins, fun _ h => nomatch h⟩, rfl⟩
    · exact Join.obeys_join (obeys_runAll input ctx children) fun output =>
        RunContext.silent_emit ctx _
  | .router name _ select choices => by
    unfold perform visitWork
    refine .given fun choice => ?_
    have hbegins := visitChoice_begins input choice.name choices
    refine .silent (RunContext.silent_emit ctx _) (map_begins hbegins) fun _ => ?_
    exact obeys_runChoice input ctx choice.name choices

theorem obeys_runSequence (ctx : RunContext) : (nodes : List Node) → (input : StepInput) →
    RunTask.Obeys ctx (runSequence ctx nodes input) ((visitSequence nodes input).map Prod.fst)
  | [], input => .ret rfl
  | n :: rest, input => by
    unfold runSequence visitSequence
    refine .bind (obeys_reported (obeys_perform input ctx n) (visitWork_begins input n))
      fun (output, c) => ?_
    dsimp only
    split
    · exact .ret rfl
    · exact .finish (obeys_runSequence ctx rest _) fun _ => rfl

private theorem obeys_runAll (input : StepInput) (ctx : RunContext) : (children : List Node) →
    List.Forall₂ (fun p A => Fiber.Obeys ctx.discipline p A) (runAll input ctx children)
      ((visitAll input children).map (TaskAccount.map Prod.fst))
  | [] => .nil
  | n :: rest =>
    .cons (obeys_reported (obeys_perform input ctx n) (visitWork_begins input n))
      (obeys_runAll input ctx rest)

private theorem obeys_runChoice (input : StepInput) (ctx : RunContext) (name : String) :
    (choices : List Node) →
      RunTask.Obeys ctx (runChoice input ctx name choices)
        ((visitChoice input name choices).map Prod.fst)
  | [] => ⟨_, ofResult_some _, rfl⟩
  | n :: rest => by
    unfold runChoice visitChoice
    split
    · exact obeys_reported (obeys_perform input ctx n) (visitWork_begins input n)
    · exact obeys_runChoice input ctx name rest

end

/-- A node does what its account says, whatever others do meanwhile. -/
theorem obeys_visit (n : Node) (input : StepInput) (ctx : RunContext) :
    RunTask.Obeys ctx (n.execute input ctx) ((n.visit input).map Prod.fst) :=
  obeys_reported (obeys_perform input ctx n) (visitWork_begins input n)

end Node

end WorkflowEngine
