import WorkflowEngine.Proofs.Node.Reckoned
import WorkflowEngine.Proofs.Node.Untimed
import WorkflowEngine.Proofs.Workflow.Tours
import WorkflowEngine.Workflow.Execution

/-!
# Workflows come to their reckoning

What the work of a run comes to on a scene, without time, events and durations. Main statement: whether its
run is streamed or not, the work of a modeless workflow comes to its reckoning.
-/

/-! ## Runs without times

Metrics and runs as they are apart from how long everything took and when a run was made. Main statement:
what a run makes of the outputs of its nodes, and how it ends, does not depend on times.
-/

namespace WorkflowEngine

namespace StepMetrics

mutual

/-- The metrics of a step and of everything within it without durations. -/
def untimed : StepMetrics → StepMetrics
  | ⟨stepName, kind, executorName, metrics, children, _⟩ =>
    ⟨stepName, kind, executorName, metrics,
      match children with
      | none => none
      | some ⟨entries⟩ => some ⟨untimedEntries entries⟩, none⟩

def untimedEntries : List (String × StepMetrics) → List (String × StepMetrics)
  | [] => []
  | (name, m) :: rest => (name, m.untimed) :: untimedEntries rest

end

mutual

private theorem untimed_ofOutput : (o : StepOutput) → (ofOutput o).untimed = ofOutput o.untimed
  | ⟨_, _, _, _, _, none, _, _, _, _, _, _, _, _⟩ => by
    simp [ofOutput, untimed, StepOutput.untimed]
  | ⟨_, _, _, _, _, some ⟨entries⟩, _, _, _, _, _, _, _, _⟩ => by
    simp [ofOutput, untimed, StepOutput.untimed, untimed_ofEntries entries]

private theorem untimed_ofEntries : (l : List (String × StepOutput)) →
    untimedEntries (ofEntries l) = ofEntries (StepOutput.untimedEntries l)
  | [] => by simp [ofEntries, untimedEntries, StepOutput.untimedEntries]
  | (_, o) :: rest => by
    simp [ofEntries, untimedEntries, StepOutput.untimedEntries, untimed_ofOutput o,
      untimed_ofEntries rest]

end

end StepMetrics

namespace WorkflowMetrics

def untimed (m : WorkflowMetrics) : WorkflowMetrics :=
  { m with steps := m.steps.mapValues StepMetrics.untimed }

theorem untimed_ofOutputs (outputs : List StepOutput) :
    (ofOutputs outputs).untimed = ofOutputs (outputs.map StepOutput.untimed) := by
  simp [ofOutputs, untimed, KeyMap.mapValues_ofList, Function.comp_def,
    StepMetrics.untimed_ofOutput]

end WorkflowMetrics

namespace WorkflowRun

variable (run : WorkflowRun)

/-- A run apart from all times. -/
def untimed : WorkflowRun :=
  { run with
    stepResponses := run.stepResponses.map StepOutput.untimed
    metrics := run.metrics.untimed
    createdAt := default }

theorem untimed_note (output : StepOutput) :
    (run.note output).untimed = run.untimed.note output.untimed := by
  unfold note
  simp only [StepOutput.untimed_success, StepOutput.untimed_stepName, StepOutput.untimed_error]
  split <;> simp [untimed]

theorem untimed_conclude (fault : Option Fault) :
    (run.conclude fault).untimed = run.untimed.conclude fault := by
  unfold conclude
  cases fault with
  | none =>
    dsimp only
    split <;> simp_all [untimed, WorkflowMetrics.untimed_ofOutputs]
  | some fault => cases fault <;> simp [untimed, WorkflowMetrics.untimed_ofOutputs]

end WorkflowRun

end WorkflowEngine

/-! ## What a run comes to -/

namespace WorkflowEngine.Workflow

open Realm Fiber

/-- The realm of the run of a workflow. -/
abbrev realm : Realm := everything fun _ => True

/-- A workflow of modeless nodes, or of a function that does the same whether its run is streamed or not. -/
def Modeless (w : Workflow) : Prop :=
  match w.plan with
  | .nodes nodes => Node.AllModeless realm nodes
  | .function f => ∀ input ctx feed, f input { ctx with feed } = f input ctx

/-- What nodes come to, one after another until one halts or a fault ends the run. -/
def reckonNodes (x : Duty) : List Node → StepInput → WorkflowRun → Scene →
    (WorkflowRun × Option Fault) × Scene
  | [], _, run, v => ((run, none), v)
  | n :: rest, input, run, v =>
    match n.reckon x input v with
    | (.error fault, v) => ((run, some fault), v)
    | (.ok output, v) =>
      let run := run.note output
      if output.halts then ((run, none), v)
      else reckonNodes x rest (input.chain n.name output) run v

/-- What a function comes to. -/
def reckonFunction (f : ExecutionInput → RunContext → Script EventKind Content)
    (input : ExecutionInput) (ctx : RunContext) (run : WorkflowRun) (v : Scene) :
    (WorkflowRun × Option Fault) × Scene :=
  match (f input ctx).reckon v with
  | (.error fault, v) => ((run, some fault), v)
  | (.ok content, v) => (({ run with content := some content }, none), v)

/-- What the work of a run comes to. -/
def reckonPlan (w : Workflow) (input : ExecutionInput) (ctx : RunContext) (run : WorkflowRun)
    (v : Scene) : (WorkflowRun × Option Fault) × Scene :=
  match w.plan with
  | .nodes nodes => reckonNodes ctx.duty nodes input.toStepInput run v
  | .function f => reckonFunction f input ctx run v

variable {w : Workflow} {ctx : RunContext}

/-- The reckoning of a modeless workflow does not depend on who follows the run. -/
theorem reckonPlan_feed (h : w.Modeless) (input : ExecutionInput) (run : WorkflowRun)
    (feed : Option (Ref Feed)) :
    w.reckonPlan input { ctx with feed } run = w.reckonPlan input ctx run := by
  funext v
  unfold reckonPlan
  unfold Modeless at h
  split
  · rfl
  · rename_i f hf
    rw [hf] at h
    unfold reckonFunction
    rw [h input ctx feed]

private theorem sessionId_reckonNodes (x : Duty) (nodes : List Node) (input : StepInput)
    (run : WorkflowRun) (v : Scene) :
    (reckonNodes x nodes input run v).1.1.sessionId = run.sessionId := by
  induction nodes generalizing input run v with
  | nil => rfl
  | cons n rest ih =>
    unfold reckonNodes
    split
    · rfl
    · dsimp only
      split
      · exact run.sessionId_note _
      · exact (ih _ _ _).trans (run.sessionId_note _)

/-- The reckoning of a run stays in its session. -/
theorem sessionId_reckonPlan (input : ExecutionInput) (run : WorkflowRun) (v : Scene) :
    (w.reckonPlan input ctx run v).1.1.sessionId = run.sessionId := by
  unfold reckonPlan
  split
  · exact sessionId_reckonNodes _ _ _ _ _
  · unfold reckonFunction
    split <;> rfl

private theorem yields_runNodes {nodes : List Node} (h : Node.AllModeless realm nodes)
    (input : StepInput) (run : WorkflowRun) (v : Scene) :
    Yields ctx realm (runNodes ctx nodes input run) v
      (fun q => (q.1.untimed, q.2) =
        (reckonNodes ctx.duty nodes input.untimed run.untimed v).1)
      (reckonNodes ctx.duty nodes input.untimed run.untimed v).2 := by
  induction nodes generalizing input run v with
  | nil => exact Yields.pure rfl
  | cons n rest ih =>
    unfold Node.AllModeless at h
    unfold runNodes reckonNodes
    refine (Node.comes_execute h.1 input v).bind fun q hq => ?_
    generalize n.reckon ctx.duty input.untimed v = m at hq ⊢
    obtain ⟨m, u⟩ := m
    subst hq
    cases q with
    | error fault => exact Yields.pure rfl
    | ok output =>
      simp only [Except.map, StepOutput.untimed_halts, ← WorkflowRun.untimed_note,
        ← StepInput.untimed_chain]
      split
      · exact Yields.pure rfl
      · exact ih h.2 _ _ u

private theorem yields_runFunction {f : ExecutionInput → RunContext → Script EventKind Content}
    (input : ExecutionInput) (run : WorkflowRun) (v : Scene) :
    Yields ctx realm (runFunction f input ctx run) v
      (fun q => (q.1.untimed, q.2) = (reckonFunction f input ctx run.untimed v).1)
      (reckonFunction f input ctx run.untimed v).2 := by
  have hsend (kind : EventKind) (v : Scene) : Yields ctx realm (ctx.emit kind) v (fun _ => True) v :=
    Yields.emit kind
  have hscript := (f input ctx).staysIn_everything.yields hsend v
  unfold reckonFunction
  refine (Yields.cancellable hscript).bind fun q hq => ?_
  obtain ⟨q, rfl, hq⟩ := hq
  generalize (f input ctx).reckon v = m at hq ⊢
  obtain ⟨m, u⟩ := m
  subst hq
  cases q with
  | error fault => exact Yields.pure rfl
  | ok content => exact Yields.pure rfl

/-- Whether its run is streamed or not, the work of a modeless workflow comes to its reckoning. -/
theorem yields_work (h : w.Modeless) (input : ExecutionInput) (run : WorkflowRun) (v : Scene) :
    Yields ctx realm (w.work input ctx run) v
      (fun q => (q.1.untimed, q.2) = (w.reckonPlan input ctx run.untimed v).1)
      (w.reckonPlan input ctx run.untimed v).2 := by
  unfold work
  refine (Yields.emit (.runStarted w.name)).bind fun _ _ => ?_
  unfold runPlan reckonPlan
  unfold Modeless at h
  cases hplan : w.plan with
  | nodes nodes =>
    rw [hplan] at h
    have hnodes : Yields ctx realm (runNodes ctx nodes input.toStepInput run) v _ _ :=
      yields_runNodes h input.toStepInput run v
    rwa [StepInput.untimed_toStepInput] at hnodes
  | function f => exact yields_runFunction input run v

end WorkflowEngine.Workflow
