import WorkflowEngine.Proofs.Node.Reckoning

/-!
# Nodes come to their reckoning

Whether it is streamed or not, a node comes to what is reckoned of it, when nobody cancels, no time limit is
hit, nothing looks at durations and parallel children are independent.
-/

namespace WorkflowEngine

open Realm Fiber RunTask

variable {r : Realm} {ctx : RunContext} {v : Scene}

namespace Step

variable {s : Step}

private theorem comes_invoke (h : s.executor.Modeless r) (input : StepInput) :
    Comes r ctx id (s.invoke input ctx)
      (s.executor.call input.untimed (ctx.duty.forStep s.name)).reckon := by
  unfold invoke
  refine .lift (fun _ => Yields.note _) fun _ _ => ?_
  have hctx : ctx.forStep s.name = ctx.duty.forStep s.name := rfl
  rw [hctx, ← h.untimed input]
  intro v
  split
  · have hsend (output : StepOutput) (v : Scene) :
        Yields ctx r (s.forward ctx output) v (fun _ => True) v := by
      unfold forward
      split
      · exact Yields.emit _
      · exact Yields.pure trivial
    have hstream := (h.stream input (ctx.duty.forStep s.name)).yields hsend v
    rw [h.streams input (ctx.duty.forStep s.name) v] at hstream
    rw [run_bind]
    refine hstream.bind fun q hq => ?_
    subst hq
    cases ((s.executor.call input (ctx.duty.forStep s.name)).reckon v).1 with
    | ok output => exact Yields.pure rfl
    | error fault => exact Yields.pure rfl
  · have hcall : Yields ctx r
        ((s.executor.call input (ctx.duty.forStep s.name)).run ctx Empty.elim) v _ _ :=
      (h.call input _).yields (fun event => event.elim) v
    exact hcall.imp fun q hq => by cases q <;> exact hq

private theorem comes_limited {work : RunTask StepOutput} {m : Reckoning StepOutput}
    (h : Comes r ctx id work m) (limit : Option Nat) : Comes r ctx id (s.limited limit work) m := by
  unfold limited
  cases limit with
  | none => exact h
  | some ms =>
    have htime (v : Scene) : Yields ctx r Fiber.time v (fun _ => True) v :=
      Yields.look fun _ _ => trivial
    refine .lift htime fun now _ v => ?_
    rw [run_lift_bind]
    refine (Yields.within _ (h v)).bind fun q hq => ?_
    obtain ⟨result, rfl, hresult⟩ := hq
    exact Yields.pure hresult

private theorem comes_attempt (h : s.executor.Modeless r) (input : StepInput) (limit : Option Nat) :
    Comes r ctx id (s.attempt input ctx limit)
      (s.executor.call input.untimed (ctx.duty.forStep s.name)).reckon := by
  intro v
  unfold attempt
  rw [run_lift_bind]
  refine (Yields.cancellable (comes_limited (comes_invoke h input) limit v)).bind fun q hq => ?_
  obtain ⟨result, rfl, hresult⟩ := hq
  exact Yields.pure hresult

private theorem comes_attempts (h : s.executor.Modeless r) (input : StepInput) (limit : Option Nat)
    (retries : Nat) : Comes r ctx id (s.attempts input ctx limit retries)
      (s.reckonAttempts ctx.duty input.untimed retries) := by
  have honce {otherwise : String → RunTask (Except String StepOutput)}
      {otherwise' : String → Reckoning (Except String StepOutput)}
      (ho : ∀ message, Comes r ctx id (otherwise message) (otherwise' message)) :
      Comes r ctx id (attempts.once s input ctx limit otherwise)
        (reckonAttempts.once s ctx.duty input.untimed otherwise') := by
    refine .checkCancelled (.result (comes_attempt h input limit) fun q => ?_)
    cases q with
    | ok output => exact .pure rfl
    | error fault =>
      dsimp only [Except.map]
      split
      · exact .throw _
      · exact ho _
  induction retries with
  | zero => exact honce fun _ => .pure rfl
  | succ retries ih => exact honce fun _ => ih

private theorem comes_execute (h : s.executor.Modeless r) (input : StepInput) :
    Comes r ctx StepOutput.untimed (s.execute input ctx) (s.reckon ctx.duty input.untimed) := by
  unfold execute reckon
  have htime (v : Scene) : Yields ctx r Fiber.time v (fun _ => True) v :=
    Yields.look fun _ _ => trivial
  refine .lift htime fun started _ => .bind (comes_attempts h input _ _) fun result => ?_
  refine .lift htime fun ended _ => .pure ?_
  cases result with
  | ok output => exact s.untimed_stamp output _ _
  | error message => exact s.untimed_stamp _ _ _

end Step

namespace Loop

private theorem comes_run {name : String} {maxIterations : Nat}
    {ends : Option (List StepOutput → Except String Bool)} {body : StepInput → RunTask Sequence}
    {body' : StepInput → Reckoning Sequence}
    (he : ∀ f, ends = some f → ∀ outputs, f outputs = f (outputs.map StepOutput.untimed))
    (hb : ∀ input, Comes r ctx Sequence.untimed (body input) (body' input.untimed))
    (input : StepInput) : Comes r ctx LoopResult.untimed
      (run name maxIterations ends ctx body input)
      (reckon name maxIterations ends body' input.untimed) := by
  have hemit (kind : EventKind) (v : Scene) : Yields ctx r (ctx.emit kind) v (fun _ => True) v :=
    Yields.emit kind
  have hends (done : List StepOutput) :
      converged name ends done = converged name ends (done.map StepOutput.untimed) := by
    cases ends with
    | none => rfl
    | some f => exact congrArg (Except.mapError _) (he f rfl done)
  have hturn (isLast : Bool) (done : List StepOutput) (input : StepInput)
      {otherwise : StepOutput → List StepOutput → StepInput → RunTask LoopResult}
      {otherwise' : StepOutput → List StepOutput → StepInput → Reckoning LoopResult}
      (ho : ∀ output done next, Comes r ctx LoopResult.untimed (otherwise output done next)
        (otherwise' output.untimed (done.map StepOutput.untimed) next.untimed)) :
      Comes r ctx LoopResult.untimed
        (turn name maxIterations ends ctx body isLast done input otherwise)
        (reckonTurn name ends body' (done.map StepOutput.untimed) input.untimed otherwise') := by
    have hconclude (iteration : Nat) (output : StepOutput) (next : StepInput) :
        Comes r ctx LoopResult.untimed
          (turn.conclude name ends ctx isLast done otherwise iteration output next)
          (reckonTurn.conclude name ends (done.map StepOutput.untimed) otherwise' output.untimed
            next.untimed) := by
      have hdone : done.map StepOutput.untimed ++ [output.untimed] =
          (done ++ [output]).map StepOutput.untimed := by simp
      unfold turn.conclude reckonTurn.conclude
      dsimp only
      rw [hdone, ← hends]
      refine .bind (.given _) fun converged => .lift (hemit _) fun _ _ => ?_
      dsimp only [id]
      split
      · exact .pure (untimed_finish _ _ _ _)
      · exact ho _ _ _
    refine .checkCancelled (.lift (hemit _) fun _ _ => .bind (hb input) fun q => ?_)
    cases q with
    | halted output =>
      refine .lift (hemit _) fun _ _ => .pure ?_
      rw [untimed_finish]
      simp
    | completed output next produced => exact hconclude _ _ _
    | empty next =>
      have hnext := hconclude (done.length + 1) (Node.passthrough name .loop next) next
      rwa [Node.untimed_passthrough] at hnext
  have hiterate (left : Nat) (done : List StepOutput) (input : StepInput) :
      Comes r ctx LoopResult.untimed (iterate name maxIterations ends ctx body left done input)
        (reckonIterate name ends body' left (done.map StepOutput.untimed) input.untimed) := by
    induction left generalizing done input with
    | zero => exact hturn _ _ _ fun _ _ _ => .pure (untimed_finish _ _ _ _)
    | succ left ih => exact hturn _ _ _ fun _ _ _ => ih _ _
  unfold run reckon
  split
  · exact .throw _
  · exact hiterate _ [] _

end Loop

namespace Node

/-- What a node tells of its work, and how long that took, does not matter. -/
private theorem comes_reported {n : Node} {input : StepInput} {work : RunTask StepOutput}
    {m : Reckoning StepOutput} (h : Comes r ctx StepOutput.untimed work m) :
    Comes r ctx StepOutput.untimed (n.reported input ctx work) m := by
  have htime (v : Scene) : Yields ctx r Fiber.time v (fun _ => True) v :=
    Yields.look fun _ _ => trivial
  unfold reported
  refine .checkCancelled (.lift (fun _ => Yields.note _) fun _ _ => ?_)
  refine .lift (fun _ => Yields.emit _) fun _ _ => .lift htime fun started _ => ?_
  rw [← m.bind_pure]
  refine .bind h fun output => .lift htime fun ended _ => ?_
  dsimp only
  refine .lift (fun _ => Yields.note _) fun _ _ => .lift (fun _ => Yields.emit _) fun _ _ => .pure ?_
  split
  · exact output.untimed_durationMs _
  · rfl

mutual

private theorem comes_perform (r : Realm) : (n : Node) → Modeless r n → (input : StepInput) →
    Comes r ctx StepOutput.untimed (perform input ctx n) (reckon ctx.duty n input.untimed)
  | .step s, h, input => by
    unfold Modeless at h
    unfold perform reckon
    exact s.comes_execute h input
  | .steps name _ children, h, input => by
    unfold Modeless at h
    unfold perform reckon
    exact .bind (comes_sequence r children h input) fun q => .pure (q.untimed_grouped _ _)
  | .condition name _ test children, h, input => by
    unfold Modeless at h
    have htest : evaluate name test input = evaluate name test input.untimed :=
      congrArg (Except.mapError _) (h.1 input)
    unfold perform reckon
    rw [htest]
    refine .bind (.given _) fun holds => .lift (fun _ => Yields.emit _) fun _ _ => ?_
    dsimp only [id]
    split
    · exact .bind (comes_sequence r children h.2 input) fun q => .pure (q.untimed_grouped _ _)
    · exact .pure (untimed_passthrough _ _ _)
  | .loop name _ maxIterations ends children, h, input => by
    unfold Modeless at h
    unfold perform reckon
    exact .bind (Loop.comes_run h.1 (comes_sequence r children h.2) input) fun _ => .pure rfl
  | .parallel name _ children, h, input => by
    unfold Modeless at h
    obtain ⟨realms, hapart, hunder, h⟩ := h
    unfold perform reckon
    refine .lift (fun _ => Yields.emit _) fun _ _ v => ?_
    rw [run_lift_bind]
    refine (yields_children r realms children hapart hunder h input v).bind fun results hresults => ?_
    dsimp only
    rw [← hresults, ← Join.result_untimed]
    generalize Join.result name (children.map Node.name) results = joined
    cases joined with
    | error fault => exact Yields.pure rfl
    | ok output =>
      have htold : Comes r ctx StepOutput.untimed
          (do ctx.emit (.parallelCompleted name output.success); return output)
          (Pure.pure output.untimed) :=
        .lift (fun _ => Yields.emit _) fun _ _ => .pure rfl
      exact htold _
  | .router name _ select choices, h, input => by
    unfold Modeless at h
    have hchoose : choose name select choices input = choose name select choices input.untimed := by
      rw [choose, choose, h.1 input]
    unfold perform reckon
    rw [hchoose]
    refine .bind (.given _) fun choice => .lift (fun _ => Yields.emit _) fun _ _ => ?_
    exact comes_choice r choice.name choices h.2 input

private theorem comes_sequence (r : Realm) : (nodes : List Node) → AllModeless r nodes →
    (input : StepInput) → Comes r ctx Sequence.untimed (runSequence ctx nodes input)
      (reckonSequence ctx.duty nodes input.untimed)
  | [], _, input => by
    unfold runSequence reckonSequence
    exact .pure rfl
  | n :: rest, h, input => by
    unfold AllModeless at h
    unfold runSequence reckonSequence
    refine .bind (comes_reported (comes_perform r n h.1 input)) fun output => ?_
    rw [StepOutput.untimed_halts, ← StepInput.untimed_chain]
    split
    · exact .pure rfl
    · exact .bind (comes_sequence r rest h.2 _) fun q => .pure (q.untimed_after output)

private theorem yields_children (r : Realm) : (realms : List Realm) → (children : List Node) →
    realms.Pairwise Apart → (∀ r' ∈ realms, r'.Under r) → EachModeless realms children →
    (input : StepInput) → (v : Scene) →
    Yields ctx r (Fiber.all (runAll input ctx children)) v
      (fun qs => qs.map (Except.map StepOutput.untimed) =
        (reckonAll ctx.duty children input.untimed v).1)
      (reckonAll ctx.duty children input.untimed v).2
  | [], [], _, _, _, input, v => by
    unfold runAll reckonAll
    exact Yields.pure rfl
  | r' :: realms, n :: rest, hapart, hunder, h, input, v => by
    unfold EachModeless at h
    obtain ⟨hhead, htail⟩ := List.pairwise_cons.1 hapart
    have hrest := apart_union hhead
    have hunder' : ∀ r'' ∈ realms, r''.Under r := fun r'' hr => hunder r'' (List.mem_cons_of_mem _ hr)
    have hfirst : Comes r' ctx StepOutput.untimed (n.reported input ctx (perform input ctx n))
        (reckon ctx.duty n input.untimed) :=
      comes_reported (comes_perform r' n h.1 input)
    have hspans : r'.Spans v (reckon ctx.duty n input.untimed v).2 :=
      spans_reckon r' n h.1 input.untimed v
    have hothers := yields_children (union realms) realms rest htail (fun r'' hr => under_union hr) h.2
      input (reckon ctx.duty n input.untimed v).2
    have hspans' : (union realms).Spans (reckon ctx.duty n input.untimed v).2
        (reckonAll ctx.duty rest input.untimed (reckon ctx.duty n input.untimed v).2).2 :=
      spans_reckonAll realms rest h.2 input.untimed _
    unfold runAll reckonAll
    refine ⟨r', union realms, _, _, _, _, _, hunder r' (List.mem_cons_self ..), union_under hunder',
      hrest, hfirst v, hothers.recast (hspans.agree hrest).symm, ⟨hspans'.agree hrest.symm, .refl _ _,
        fun key _ hk hk' => ((hspans'.keys key hk').trans (hspans.keys key hk)).symm,
        fun t _ ht ht' => ((hspans'.tallies t ht').trans (hspans.tallies t ht)).symm⟩, ?_⟩
    intro q qs hq hqs
    exact Yields.pure (congrArg₂ List.cons hq hqs)
  | [], _ :: _, _, _, h, _, _ => by simp [EachModeless] at h
  | _ :: _, [], _, _, h, _, _ => by simp [EachModeless] at h

private theorem comes_choice (r : Realm) (name : String) : (choices : List Node) →
    AllModeless r choices → (input : StepInput) →
    Comes r ctx StepOutput.untimed (runChoice input ctx name choices)
      (reckonChoice ctx.duty name choices input.untimed)
  | [], _, input => by
    unfold runChoice reckonChoice
    exact .throw _
  | n :: rest, h, input => by
    unfold AllModeless at h
    unfold runChoice reckonChoice
    split
    · exact comes_reported (comes_perform r n h.1 input)
    · exact comes_choice r name rest h.2 input

end

/-- A node comes to its reckoning, whether it is streamed or not. -/
theorem comes_execute {n : Node} (h : Modeless r n) (input : StepInput) :
    Comes r ctx StepOutput.untimed (n.execute input ctx) (reckon ctx.duty n input.untimed) :=
  comes_reported (comes_perform r n h input)

end Node

end WorkflowEngine
