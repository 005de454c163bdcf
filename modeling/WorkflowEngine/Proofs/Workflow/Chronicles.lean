import WorkflowEngine.Proofs.Node.Narration
import WorkflowEngine.Proofs.Node.Regrouping
import WorkflowEngine.Proofs.Workflow.Outcomes
import WorkflowEngine.Proofs.Workflow.Stories

/-!
# Chronicles of runs

What a streamed run tells from its beginning to its end: its start, the tales of the nodes of its
workflow one after another, and the event that ends it. Main statements: the code of a run tells such
a chronicle, whatever others do meanwhile, and arranged it is one in which the children of every
parallel node stand in the order of declaration.
-/

namespace WorkflowEngine

open Outlet Telling

/-- What nodes tell one after another until one halts or a fault ends the run, and what becomes of the
run. -/
inductive Chronicle
    (beside : List (Tale StepOutput) → Account Telling (List (Except Fault StepOutput)))
    (defaults : StepSection) :
    List Node → StepInput → WorkflowRun → Account Telling (WorkflowRun × Option Fault)
  | finished {input : StepInput} {run : WorkflowRun} {r : Option (WorkflowRun × Option Fault)}
      (hr : ∀ p, r = some p → p = (run, none)) : Chronicle beside defaults [] input run [] r
  | under {n : Node} {rest : List Node} {input : StepInput} {run : WorkflowRun} {t : List Telling}
      {q : Option (Except Fault StepOutput)} (h : n.tale beside defaults input t q) :
      Chronicle beside defaults (n :: rest) input run t none
  | fault {n : Node} {rest : List Node} {input : StepInput} {run : WorkflowRun} {t : List Telling}
      {fault : Fault} (h : n.tale beside defaults input t (some (.error fault))) :
      Chronicle beside defaults (n :: rest) input run t (some (run, some fault))
  | halted {n : Node} {rest : List Node} {input : StepInput} {run : WorkflowRun} {t : List Telling}
      {output : StepOutput} (h : n.tale beside defaults input t (some (.ok output)))
      (ho : output.halts) : Chronicle beside defaults (n :: rest) input run t
        (some (run.note output, none))
  | next {n : Node} {rest : List Node} {input : StepInput} {run : WorkflowRun} {t u : List Telling}
      {output : StepOutput} {r : Option (WorkflowRun × Option Fault)}
      (h : n.tale beside defaults input t (some (.ok output))) (ho : output.halts = false)
      (hrest : Chronicle beside defaults rest (input.chain n.name output) (run.note output) u r) :
      Chronicle beside defaults (n :: rest) input run (t ++ u) r

/-- What follows the result of the first of some nodes. -/
def Chronicle.onward
    (beside : List (Tale StepOutput) → Account Telling (List (Except Fault StepOutput)))
    (defaults : StepSection) (n : Node) (rest : List Node) (input : StepInput) (run : WorkflowRun) :
    Except Fault StepOutput → Account Telling (WorkflowRun × Option Fault)
  | .error f => fun t r => t = [] ∧ r = some (run, some f)
  | .ok output =>
    if output.halts then fun t r => t = [] ∧ r = some (run.note output, none)
    else Chronicle beside defaults rest (input.chain n.name output) (run.note output)

/-- The event that ends a run goes by its status. -/
inductive WorkflowRun.ClosedBy (run : WorkflowRun) : EventKind → Prop
  | completed (h : run.status = .completed) : run.ClosedBy (.runCompleted run.content .completed)
  | failed {failure : RunFailure} (h : run.status = .error) (hf : run.failure = some failure) :
      run.ClosedBy (.runError (some failure.stepName) failure.message)
  | cancelled (h : run.status = .cancelled) : run.ClosedBy .runCancelled

namespace Chronicle

variable {beside : List (Tale StepOutput) → Account Telling (List (Except Fault StepOutput))}
  {defaults : StepSection} {nodes : List Node} {input : StepInput} {run : WorkflowRun}
  {t : List Telling} {r : Option (WorkflowRun × Option Fault)} {out : WorkflowRun × Option Fault}

/-- A run keeps its identifier. -/
theorem recordId (h : Chronicle beside defaults nodes input run t r) (hr : r = some out) :
    out.1.runId = run.runId := by
  induction h with
  | finished ho => rw [ho _ hr]
  | under h => cases hr
  | fault h =>
    cases hr
    rfl
  | halted h ho =>
    cases hr
    exact WorkflowRun.runId_note _ _
  | next h ho hrest ih => exact (ih hr).trans (WorkflowRun.runId_note _ _)

/-- A run goes on running until a node fails, and then it has a failure and no fault follows. -/
theorem outcome (h : Chronicle beside defaults nodes input run t r) (hs : run.status = .running)
    (hr : r = some out) :
    out.1.status = .running ∨ out.1.status = .error ∧ out.1.failure.isSome ∧ out.2 = none := by
  have hnote {run : WorkflowRun} (output : StepOutput) (hs : run.status = .running) :
      (run.note output).status = .running ∨
        (run.note output).status = .error ∧ (run.note output).failure.isSome := by
    unfold WorkflowRun.note
    cases output.success with
    | true => exact .inl hs
    | false => exact .inr ⟨rfl, rfl⟩
  induction h with
  | finished ho =>
    rw [ho _ hr]
    exact .inl hs
  | under h => cases hr
  | fault h =>
    cases hr
    exact .inl hs
  | @halted n rest input run t output h ho =>
    cases hr
    exact (hnote output hs).imp_right fun h => ⟨h.1, h.2, rfl⟩
  | @next n rest input run t u output r h ho hrest ih =>
    exact ih (by simp [hs, StepOutput.success_of_halts ho]) hr

/-- The event that ends a run tells its content or its failure. -/
theorem closedBy (h : Chronicle beside defaults nodes input run t (some out))
    (hs : run.status = .running) :
    (out.1.conclude out.2).ClosedBy (out.1.conclude out.2).terminalEvent := by
  obtain ⟨last, fault⟩ := out
  have hlast := h.outcome hs rfl
  dsimp only at hlast
  cases fault with
  | none =>
    rcases hlast with hrunning | ⟨herror, hfailure, -⟩
    · have hc : (last.conclude none).status = .completed := by simp [WorkflowRun.conclude, hrunning]
      rw [show (last.conclude none).terminalEvent = .runCompleted (last.conclude none).content
        .completed by simp [WorkflowRun.terminalEvent, hc]]
      exact .completed hc
    · obtain ⟨failure, hfailure⟩ := Option.isSome_iff_exists.1 hfailure
      have he : (last.conclude none).status = .error := by simp [WorkflowRun.conclude, herror]
      have hf : (last.conclude none).failure = some failure := by
        simp [WorkflowRun.conclude, herror, hfailure]
      rw [show (last.conclude none).terminalEvent =
        .runError (some failure.stepName) failure.message by simp [WorkflowRun.terminalEvent, he, hf]]
      exact .failed he hf
  | some fault =>
    by_cases hcancelled : fault = .cancelled
    · subst hcancelled
      exact .cancelled rfl
    · have he : (last.conclude (some fault)).status = .error := by
        cases fault <;> first | rfl | exact absurd rfl hcancelled
      obtain ⟨failure, hf⟩ : ∃ failure, (last.conclude (some fault)).failure = some failure := by
        cases fault <;> first | exact ⟨_, rfl⟩ | exact absurd rfl hcancelled
      rw [show (last.conclude (some fault)).terminalEvent =
        .runError (some failure.stepName) failure.message by simp [WorkflowRun.terminalEvent, he, hf]]
      exact .failed he hf

/-- Arranged, the tales of the nodes are ones in which parallel children stand in the order of
declaration. -/
theorem regroup {whole : List Node} (hp : Node.PartOf nodes whole)
    (h : Chronicle .together defaults nodes input run t r) :
    ∃ u, Chronicle .inTurn defaults nodes input run u r ∧
      ∃ q : Option (Except Fault Unit), (r.isSome → q.isSome) ∧
        Regroups defaults whole nodes q t u := by
  have hhead {n m : Node} {rest : List Node} (hm : m ∈ Node.descendants [n]) :
      m ∈ Node.descendants (n :: rest) := Node.mem_descendants_of_mem (List.mem_cons_self ..) hm
  induction h with
  | finished hr => exact ⟨[], .finished hr, some (.ok ()), fun _ => rfl, .nil⟩
  | under h =>
    obtain ⟨u, hu, hr⟩ := Node.regroup_tale _ hp.head _ _ _ h
    exact ⟨u, .under hu, none, nofun, (hr.mono fun _ => hhead).recast nofun nofun⟩
  | @fault n rest input run t fault h =>
    obtain ⟨u, hu, hr⟩ := Node.regroup_tale _ hp.head _ _ _ h
    exact ⟨u, .fault hu, some (.error fault), fun _ => rfl,
      (hr.mono fun _ => hhead).recast nofun fun _ => rfl⟩
  | halted h ho =>
    obtain ⟨u, hu, hr⟩ := Node.regroup_tale _ hp.head _ _ _ h
    exact ⟨u, .halted hu ho, some (.ok ()), fun _ => rfl,
      (hr.mono fun _ => hhead).recast (fun _ _ => ⟨_, rfl⟩) fun _ => rfl⟩
  | next h ho hrest ih =>
    obtain ⟨u, hu, hr⟩ := Node.regroup_tale _ hp.head _ _ _ h
    obtain ⟨u', hu', q, hq, hr'⟩ := ih hp.tail
    exact ⟨u ++ u', .next hu ho hu', q, hq,
      (hr.mono fun _ => hhead).append (hr'.mono fun _ => Node.mem_descendants_tail)⟩

end Chronicle

namespace Workflow

variable {w : Workflow} {nodes : List Node} {input : ExecutionInput} {o : Outlet}

/-- The nodes of a run tell its chronicle. -/
theorem tells_runNodes {ctx : RunContext} (hc : o.Serves ctx) (nodes : List Node)
    (input : StepInput) (run : WorkflowRun) :
    o.Obeys (runNodes ctx nodes input run)
      (Chronicle .together ctx.stepDefaults nodes input run) := by
  induction nodes generalizing input run with
  | nil => exact .done (.finished fun _ hr => (Option.some.inj hr).symm)
  | cons n rest ih =>
    unfold runNodes
    refine Outlet.Obeys.bind (n.tells_tale hc input)
      (C := Chronicle.onward .together ctx.stepDefaults n rest input run) (fun result => ?_)
      (fun t ht => .under ht) fun t result u r ht hu => ?_
    · cases result with
      | error fault => exact .done ⟨rfl, rfl⟩
      | ok output =>
        dsimp only [Chronicle.onward]
        split
        · exact .done ⟨rfl, rfl⟩
        · exact ih _ _
    · cases result with
      | error fault =>
        obtain ⟨rfl, rfl⟩ := hu
        rw [List.append_nil]
        exact .fault ht
      | ok output =>
        dsimp only [Chronicle.onward] at hu
        split at hu
        · rename_i ho
          obtain ⟨rfl, rfl⟩ := hu
          rw [List.append_nil]
          exact .halted ht ho
        · rename_i ho
          exact .next ht (by simpa using ho) hu

/-- The log of a run that has ended. -/
inductive Logged (beside : List (Tale StepOutput) → Account Telling (List (Except Fault StepOutput)))
    (w : Workflow) (nodes : List Node) (input : ExecutionInput) (runId : String) :
    WorkflowRun → List Telling → Prop
  | intro {base final : SessionState} {initial last : WorkflowRun} {fault : Option Fault}
      {t : List Telling} {started ended : WorkflowEvent} (hi : Initial input runId initial)
      (ht : Chronicle beside w.stepDefaults nodes input.toStepInput initial t (some (last, fault)))
      (hs : started.kind = .runStarted w.name)
      (he : ended.kind = (last.conclude fault).terminalEvent) :
      Logged beside w nodes input runId (last.conclude fault)
        (.noted (.began base) :: .published started :: .delivered started ::
          (t ++ [.noted (.ended fault (last.conclude fault) final), .published ended,
            .delivered ended]))

/-- The work of a run tells its start and its chronicle. -/
theorem tells_work {ctx : RunContext} (hc : o.Serves ctx) (hp : w.plan = .nodes nodes)
    (run : WorkflowRun) :
    o.Obeys (w.work input ctx run) (atEnd fun t out => ∃ started u,
      started.kind = .runStarted w.name ∧ t = .published started :: .delivered started :: u ∧
        Chronicle .together ctx.stepDefaults nodes input.toStepInput run u (some out)) := by
  unfold work runPlan
  rw [hp]
  refine Outlet.Obeys.bind (.emit hc _) (fun _ => tells_runNodes hc nodes _ run)
    (fun _ _ => atEnd_none) fun t _ u r ht hu out hr => ?_
  cases ht with
  | delivered hk => exact ⟨_, u, hk, rfl, hr ▸ hu⟩

/-- The end of a run is noted in its journal. -/
theorem tells_endRun (run : WorkflowRun) (fault : Option Fault)
    (state committed : Ref SessionState) (base : SessionState) (e : Engine) :
    ∃ final t, o.Tells e t (w.endRun run fault state committed base e) ∧
      (run.runId = o.runId → t = [.noted (.ended fault run final)]) := by
  obtain ⟨stores, readings, hframe⟩ := endRun_frame w e run fault state committed base
  rw [hframe]
  by_cases hid : run.runId = o.runId
  · exact ⟨_, _, .noted (by rw [hid]) rfl rfl (fun h => h), fun _ => rfl⟩
  · exact ⟨∅, [], .silent (by simp [Journal.of, hid]) rfl rfl (fun h => h), fun h => absurd h hid⟩

/-- A run that ends tells so. -/
theorem tells_leave {ctx : RunContext} (hc : o.Serves ctx) (committed : Ref SessionState)
    (base : SessionState) (out : WorkflowRun × Option Fault) :
    o.Obeys (w.leave ctx committed base out) (atEnd fun t r => ∀ run, r = .ok run →
      run = out.1.conclude out.2 ∧ ∃ final noted ended,
        (run.runId = o.runId → noted = [.noted (.ended out.2 run final)]) ∧
        ended.kind = run.terminalEvent ∧ t = noted ++ [.published ended, .delivered ended]) := by
  obtain ⟨last, fault⟩ := out
  have hlast : o.Obeys ((ctx.emitTerminal (last.conclude fault).terminalEvent).bind fun _ =>
      .done (.ok (last.conclude fault) : Except Fault WorkflowRun)) (atEnd fun t r => ∃ ended,
        r = .ok (last.conclude fault) ∧ ended.kind = (last.conclude fault).terminalEvent ∧
          t = [.published ended, .delivered ended]) := by
    refine .bind (.emitTerminal hc _)
      (C := fun _ => atEnd fun t r => t = [] ∧ r = .ok (last.conclude fault))
      (fun _ => .done (atEnd_some.2 ⟨rfl, rfl⟩)) (fun _ _ => atEnd_none) fun t _ u r ht hu a ha => ?_
    obtain ⟨rfl, rfl⟩ := hu a ha
    cases ht with
    | delivered hk => exact ⟨_, rfl, hk, rfl⟩
  refine ⟨.inr ⟨none, atEnd_none, fun _ h => h⟩, fun e => ?_⟩
  obtain ⟨final, noted, ht, hnoted⟩ := tells_endRun (w := w) (o := o) (last.conclude fault) fault
    ctx.state committed base e
  refine ⟨noted, ht, hlast.after fun u r hu a ha run hr => ?_⟩
  obtain ⟨ended, rfl, hk, rfl⟩ := hu a ha
  cases hr
  exact ⟨rfl, final, noted, ended, hnoted, hk, rfl⟩

/-- A run that has begun tells the rest of its log. -/
theorem tells_begun {ctx : RunContext} (hc : o.Serves ctx) (hp : w.plan = .nodes nodes)
    (hd : ctx.stepDefaults = w.stepDefaults) {committed : Ref SessionState} {base : SessionState}
    {run : WorkflowRun} (hi : Initial input o.runId run) :
    o.Obeys ((w.work input ctx run).bind (w.leave ctx committed base)) (atEnd fun t r => ∀ run,
      r = .ok run → Logged .together w nodes input o.runId run (.noted (.began base) :: t)) := by
  refine .bind (tells_work hc hp run) (tells_leave hc committed base) (fun _ _ => atEnd_none) ?_
  rintro t ⟨last, fault⟩ u r ht hu a ha run hr
  obtain ⟨started, v, hs, rfl, hv⟩ := atEnd_some.1 ht
  obtain ⟨rfl, final, noted, ended, hnoted, he, rfl⟩ := hu a ha run hr
  have hid : (last.conclude fault).runId = o.runId :=
    (WorkflowRun.runId_conclude _ _).trans ((hv.recordId rfl).trans hi.recordId)
  obtain rfl := hnoted hid
  exact .intro hi (hd ▸ hv) hs he

theorem tells_prepareSession : o.Obeys (Fiber.update w.prepareSession) quiet := by
  refine .update fun e => ?_
  rcases hprepare : w.prepareSession e with ⟨r, e'⟩
  rcases prepareSession_cases w e hprepare with ⟨-, -, rfl⟩ |
    ⟨-, ⟨_, _, _, -, -, rfl⟩ | ⟨_, _, _, -, -, rfl⟩⟩
  · exact Tells.refl o e'
  · exact .silent rfl rfl rfl fun h => h
  · exact .silent rfl rfl rfl fun h => h

/-- A run tells its whole log, whatever others do meanwhile. -/
theorem tells_executeRun (hp : w.plan = .nodes nodes) (hb : o.bus = w.bus) :
    o.Obeys (w.executeRun input o.runId o.token (some o.feed)) (atEnd fun t r => ∀ run,
      r = .ok run → Logged .together w nodes input o.runId run t) := by
  have hrefused (fault : Fault) : o.Obeys (.done (.error fault : Except Fault WorkflowRun))
      (atEnd fun t r => ∀ run, r = .ok run → Logged .together w nodes input o.runId run t) :=
    .done (atEnd_some.2 fun _ hr => nomatch hr)
  unfold executeRun
  split
  · exact hrefused _
  · refine .quietly tells_prepareSession fun prepared => ?_
    cases prepared with
    | error fault => exact hrefused fault
    | ok place =>
      obtain ⟨sessionId, committed⟩ := place
      refine ⟨.inr ⟨none, atEnd_none, fun _ h => h⟩, fun e => ?_⟩
      obtain ⟨stores, readings, now, hframe⟩ :=
        beginRun_frame w e input o.runId o.token (some o.feed) sessionId committed
      rw [hframe]
      refine ⟨[.noted (.began (e.states.get committed))], .noted rfl rfl rfl (fun h => h), ?_⟩
      exact (tells_begun ⟨rfl, rfl, rfl, hb.symm⟩ hp rfl ⟨rfl, rfl, rfl, rfl, rfl⟩).after
        fun _ _ h => h

end Workflow

end WorkflowEngine
