import WorkflowEngine.Proofs.Node.Adequacy
import WorkflowEngine.Workflow.Execution

/-!
# Tours of workflows

What the work of a run tells: the visits of the nodes of its workflow, one after another, what
becomes of the run, and the courses of the visits that gave an output.
-/

namespace WorkflowEngine

/-- How the work of a run stands at its end: the run, the fault that ended it, and the courses. -/
abbrev Toured := (WorkflowRun × Option Fault) × List Course

/-- The visits of nodes, one after another, until one halts or a fault ends the run. -/
inductive Tour : List Node → StepInput → WorkflowRun → Account Happening Toured
  | finished {input : StepInput} {run : WorkflowRun} {r : Option Toured}
      (hr : ∀ p, r = some p → p = ((run, none), [])) : Tour [] input run [] r
  | under {n : Node} {rest : List Node} {input : StepInput} {run : WorkflowRun}
      {t : List Happening} {q : Option (Except Fault (StepOutput × Course))}
      (h : n.visit input t q) : Tour (n :: rest) input run t none
  | fault {n : Node} {rest : List Node} {input : StepInput} {run : WorkflowRun}
      {t : List Happening} {fault : Fault} (h : n.visit input t (some (.error fault))) :
      Tour (n :: rest) input run t (some ((run, some fault), []))
  | halted {n : Node} {rest : List Node} {input : StepInput} {run : WorkflowRun}
      {t : List Happening} {o : StepOutput} {c : Course} (h : n.visit input t (some (.ok (o, c))))
      (ho : o.halts) : Tour (n :: rest) input run t (some ((run.note o, none), [c]))
  | next {n : Node} {rest : List Node} {input : StepInput} {run : WorkflowRun}
      {t u : List Happening} {o : StepOutput} {c : Course} {r : Option Toured}
      (h : n.visit input t (some (.ok (o, c)))) (ho : o.halts = false)
      (hrest : Tour rest (input.chain n.name o) (run.note o) u r) :
      Tour (n :: rest) input run (t ++ u) (r.map fun (out, courses) => (out, c :: courses))

@[simp] theorem WorkflowRun.runId_note (run : WorkflowRun) (o : StepOutput) :
    (run.note o).runId = run.runId := by
  unfold note
  dsimp only
  split <;> rfl

@[simp] theorem WorkflowRun.runId_conclude (run : WorkflowRun) (fault : Option Fault) :
    (run.conclude fault).runId = run.runId := by
  unfold conclude
  dsimp only
  split
  · split <;> rfl
  · rfl
  · rfl

theorem WorkflowRun.sessionId_note (run : WorkflowRun) (o : StepOutput) :
    (run.note o).sessionId = run.sessionId := by
  unfold note
  dsimp only
  split <;> rfl

theorem WorkflowRun.sessionId_conclude (run : WorkflowRun) (fault : Option Fault) :
    (run.conclude fault).sessionId = run.sessionId := by
  unfold conclude
  dsimp only
  split
  · split <;> rfl
  · rfl
  · rfl

theorem tour_begins (nodes : List Node) (input : StepInput) (run : WorkflowRun) :
    Tour nodes input run [] none := by
  cases nodes with
  | nil => exact .finished fun _ h => nomatch h
  | cons n rest => exact .under .idle

namespace Workflow

/-- What the work of a run tells. A function tells nothing. -/
def account (w : Workflow) (input : ExecutionInput) (run : WorkflowRun) :
    Account Happening (WorkflowRun × Option Fault) :=
  match w.plan with
  | .nodes nodes => fun t r => ∃ q, Tour nodes input.toStepInput run t q ∧ r = q.map Prod.fst
  | .function _ => fun t r =>
    t = [] ∧ ∀ q, r = some q → ∃ content fault, q = ({ run with content }, fault)

/-- A tour keeps everything about the run but what its nodes give. -/
theorem runId_of_tour {nodes : List Node} {input : StepInput} {run : WorkflowRun}
    {t : List Happening} {r : Option Toured} (h : Tour nodes input run t r) :
    ∀ out, r = some out → out.1.1.runId = run.runId := by
  induction h with
  | finished hr => exact fun out h => hr out h ▸ rfl
  | under h => exact fun _ h => nomatch h
  | fault h => exact fun _ h => Option.some.inj h ▸ rfl
  | halted h ho => exact fun _ h => Option.some.inj h ▸ WorkflowRun.runId_note _ _
  | next h ho hrest ih =>
    intro out h
    obtain ⟨out', rfl, rfl⟩ := Option.map_eq_some_iff.1 h
    exact (ih _ rfl).trans (WorkflowRun.runId_note _ _)

/-- The work of a run keeps its identifier. -/
theorem runId_of_account {w : Workflow} {input : ExecutionInput} {run : WorkflowRun}
    {t : List Happening} {out : WorkflowRun × Option Fault}
    (h : w.account input run t (some out)) : out.1.runId = run.runId := by
  cases hp : w.plan with
  | nodes nodes =>
    rw [account, hp] at h
    obtain ⟨q, hq, hr⟩ := h
    obtain ⟨toured, rfl, rfl⟩ := Option.map_eq_some_iff.1 hr.symm
    exact runId_of_tour hq _ rfl
  | function f =>
    rw [account, hp] at h
    obtain ⟨content, fault, rfl⟩ := h.2 out rfl
    rfl

variable {ctx : RunContext}

theorem obeys_runNodes (nodes : List Node) (input : StepInput) (run : WorkflowRun) :
    Fiber.Obeys ctx.discipline (runNodes ctx nodes input run)
      fun t r => ∃ q, Tour nodes input run t q ∧ r = q.map Prod.fst := by
  induction nodes generalizing input run with
  | nil => exact ⟨some ((run, none), []), .finished fun _ h => (Option.some.inj h).symm, rfl⟩
  | cons n rest ih =>
    unfold runNodes
    refine Fiber.Obeys.bind (n.obeys_visit input ctx) ?_ ?_
    · rintro t ⟨q, hq, -⟩
      exact ⟨none, .under hq, rfl⟩
    · rintro t (fault | o) ⟨q, hq, hr⟩
      · obtain rfl : q = some (.error fault) := by
          rcases q with _ | _ | _ <;> cases hr
          rfl
        exact Fiber.Obeys.of_done ⟨some ((run, some fault), []), .fault hq, rfl⟩
      · obtain ⟨c, rfl⟩ : ∃ c, q = some (.ok (o, c)) := by
          rcases q with _ | _ | ⟨_, c⟩ <;> cases hr
          exact ⟨c, rfl⟩
        dsimp only
        split
        · rename_i ho
          exact Fiber.Obeys.of_done ⟨some ((run.note o, none), [c]), .halted hq ho, rfl⟩
        · rename_i ho
          refine (ih _ _).mono ?_
          rintro u r ⟨q, hu, rfl⟩
          exact ⟨q.map fun (out, courses) => (out, c :: courses), .next hq (by simpa using ho) hu,
            by cases q <;> rfl⟩

theorem obeys_runFunction (f : ExecutionInput → RunContext → Script EventKind Content)
    (input : ExecutionInput) (run : WorkflowRun) :
    Fiber.Obeys ctx.discipline (runFunction f input ctx run)
      fun t r => t = [] ∧ ∀ q, r = some q → ∃ content fault, q = ({ run with content }, fault) := by
  unfold runFunction
  have hscript : Fiber.Obeys ctx.discipline
      (Fiber.cancellable (fun e => e.isCancelled ctx.token) ((f input ctx).run ctx ctx.emit))
      .silent :=
    .race (RunContext.silent_script (RunContext.silent_emit ctx) (f input ctx))
      fun _ _ ht => ⟨ht, ht, fun _ _ => ht⟩
  refine hscript.silent_bind ⟨rfl, fun _ h => nomatch h⟩ fun r => ?_
  rcases r with _ | _ | content
  · exact ⟨rfl, fun q hq => ⟨run.content, some .cancelled, (Option.some.inj hq).symm⟩⟩
  · exact ⟨rfl, fun q hq => ⟨run.content, _, (Option.some.inj hq).symm⟩⟩
  · exact ⟨rfl, fun q hq => ⟨some content, none, (Option.some.inj hq).symm⟩⟩

/-- The work of a run does what its account says, whatever others do meanwhile. -/
theorem obeys_work (w : Workflow) (input : ExecutionInput) (run : WorkflowRun) :
    Fiber.Obeys ctx.discipline (w.work input ctx run) (w.account input run) := by
  have hemit := RunContext.silent_emit ctx (.runStarted w.name)
  cases hp : w.plan with
  | nodes nodes =>
    unfold work runPlan account
    rw [hp]
    exact hemit.silent_bind ⟨none, tour_begins _ _ _, rfl⟩ fun _ => obeys_runNodes nodes _ run
  | function f =>
    unfold work runPlan account
    rw [hp]
    exact hemit.silent_bind ⟨rfl, fun _ h => nomatch h⟩ fun _ => obeys_runFunction f input run

end Workflow

end WorkflowEngine
