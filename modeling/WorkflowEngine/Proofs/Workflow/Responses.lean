import WorkflowEngine.Executor.Ready
import WorkflowEngine.Proofs.Node.Origins
import WorkflowEngine.Proofs.Node.Sights
import WorkflowEngine.Proofs.Workflow.Halting

/-!
# Responses of runs

Main statement: the responses of a run are what its top-level nodes gave, one after another; each has a name
of the tree of its node, so that no two have one name, and its metrics stand under that name.
-/

namespace WorkflowEngine

open Node Fiber

/-! ## Names -/

/-- The name that an output arises with is that of a node of the tree. -/
theorem Node.stepName_of_arises {P : Step → StepOutput → Prop}
    (hP : ∀ s o, P s o → o.stepName = s.name) {n : Node} {o : StepOutput} (h : Arises P n o) :
    o.stepName ∈ names [n] := by
  have hchild {n c : Node} {x : String} (hc : c ∈ n.children) (hx : x ∈ names [c]) : x ∈ names [n] :=
    names_children_subset (mem_names_of_mem hc hx)
  induction h with
  | step h =>
    rw [hP _ _ h]
    exact name_mem_names (.step _)
  | dated _ _ ih => exact ih
  | halted _ hc _ _ ih => exact hchild hc ih
  | completed | passed => exact name_mem_names _
  | interrupted hc _ _ _ ih => exact hchild (n := .loop ..) hc ih
  | finished _ _ _ _ hs | idled _ _ hs =>
    rw [Loop.finish, if_neg hs]
    exact name_mem_names (.loop ..)
  | joined => exact name_mem_names (.parallel ..)
  | chosen hc _ ih => exact hchild (n := .router ..) hc ih

theorem Step.gives_name {ctx : RunContext} (s : Step) (input : StepInput) :
    (s.execute input ctx).Gives fun o => o.stepName = s.name :=
  gives_execute (.any _) (fun _ _ _ => rfl) fun _ _ => rfl

namespace Workflow

/-- The responses that a run adds arise for the nodes, one after another. -/
theorem gives_runNodes {P : Step → StepOutput → Prop} {ctx : RunContext} (nodes : List Node)
    (h : StepsGive ctx P nodes) (input : StepInput) (run : WorkflowRun) :
    Fiber.Gives (runNodes ctx nodes input run) fun out => ∃ before os, before <+: nodes ∧
      List.Forall₂ (Arises P) before os ∧ out.1.stepResponses = run.stepResponses ++ os := by
  induction nodes generalizing input run with
  | nil => exact .done ⟨[], [], List.nil_prefix, .nil, by simp⟩
  | cons n rest ih =>
    unfold runNodes
    refine .bind (gives_execute h.head input) fun r hr => ?_
    cases r with
    | error fault => exact .done ⟨[], [], List.nil_prefix, .nil, by simp⟩
    | ok o =>
      have ho : Arises P n o := hr o rfl
      dsimp only
      split
      · exact .done ⟨[n], [o], by simp, .cons ho .nil, run.stepResponses_note o⟩
      · refine (ih h.tail _ _).mono fun out => ?_
        rintro ⟨before, os, hb, hos, hout⟩
        exact ⟨n :: before, o :: os, List.prefix_cons_inj n |>.2 hb, .cons ho hos, by simp [hout]⟩

/-- What the work of a run leaves arose for the nodes, one after another. -/
theorem arises_of_work {w : Workflow} {nodes : List Node} {input : ExecutionInput}
    {P : Step → StepOutput → Prop} {ctx : RunContext} {others : Engine → Engine → Prop}
    {run run' : WorkflowRun} {fault : Option Fault} {e e' : Engine} (hp : w.plan = .nodes nodes)
    (hs : StepsGive ctx P nodes) (h : Evolves others (w.work input ctx run) e (.done (run', fault)) e') :
    ∃ before os, before <+: nodes ∧ List.Forall₂ (Arises P) before os ∧
      run'.stepResponses = run.stepResponses ++ os := by
  have hwork : Fiber.Gives (w.work input ctx run) fun out => ∃ before os, before <+: nodes ∧
      List.Forall₂ (Arises P) before os ∧ out.1.stepResponses = run.stepResponses ++ os := by
    unfold work runPlan
    rw [hp]
    exact .after_any fun _ => gives_runNodes nodes hs _ _
  exact hwork.of_evolves h

end Workflow

/-! ## What the nodes of a tour gave -/

/-- The responses that a tour adds to its run are all that its nodes gave. -/
theorem outputsOf_of_tour {nodes : List Node} {input : StepInput} {run run' : WorkflowRun}
    {t : List Happening} {r : Option Toured} {fault : Option Fault} {courses : List Course}
    (h : Tour nodes input run t r) (hn : (names nodes).Nodup)
    (hr : r = some ((run', fault), courses)) :
    ∃ os : List StepOutput, run'.stepResponses = run.stepResponses ++ os ∧
      os.length ≤ nodes.length ∧ outputsOf nodes t = (nodes.map Node.name).zip os := by
  induction h generalizing courses with
  | finished ho =>
    cases ho _ hr
    exact ⟨[], by simp, Nat.le_refl _, rfl⟩
  | under h => cases hr
  | fault h =>
    cases hr
    refine ⟨[], by simp, Nat.zero_le _, ?_⟩
    rw [List.zip_nil_right]
    exact outputsOf_eq_nil fun y o ho => notMem_of_below hn (gave_of_fault ((Within.head hn).nodup hn) h ho)
  | @halted n rest input run t o c h ho =>
    cases hr
    refine ⟨[o], run.stepResponses_note o, by simp, ?_⟩
    simp [(outputsOf_visit hn h).2 o c rfl]
  | @next n rest input run t u o c r h ho hrest ih =>
    obtain ⟨⟨out, courses'⟩, rfl, hout⟩ := Option.map_eq_some_iff.1 hr
    cases hout
    have htail := (Within.tail hn).nodup hn
    obtain ⟨os, hos, hlen, hu⟩ := ih htail rfl
    refine ⟨o :: os, by simp [hos], Nat.succ_le_succ hlen, ?_⟩
    have hsame : outputsOf (n :: rest) u = outputsOf rest u := outputsOf_congr fun y p hp => by
      have hy : y ∈ names rest := (order_of_tour hrest htail).node _ hp y rfl
      have hne : y ≠ n.name := fun heq => by
        rw [names_cons] at hn
        exact (List.nodup_append.1 hn).2.2 _ (name_mem_names n) _ hy heq.symm
      simp [hne]
    rw [outputsOf_append, (outputsOf_visit hn h).2 o c rfl, hsame, hu]
    rfl

/-! ## Metrics -/

theorem WorkflowRun.metrics_conclude (run : WorkflowRun) (fault : Option Fault) :
    (run.conclude fault).metrics = WorkflowMetrics.ofOutputs run.stepResponses := by
  unfold conclude
  dsimp only
  split
  · split <;> rfl
  · rfl
  · rfl

section

variable {os : List StepOutput} (hn : (os.map StepOutput.stepName).Nodup)

include hn

theorem WorkflowMetrics.size_ofOutputs : (ofOutputs os).steps.size = os.length := by
  have hkeys := KeyMap.perm_keys_ofList
    (l := os.map fun o => (o.stepName, StepMetrics.ofOutput o)) (by simpa [Function.comp_def] using hn)
  exact ((List.length_map _).symm.trans hkeys.length_eq).trans (by simp)

theorem WorkflowMetrics.get?_ofOutputs {o : StepOutput} (h : o ∈ os) :
    (ofOutputs os).steps.get? o.stepName = some (StepMetrics.ofOutput o) :=
  KeyMap.get?_insertMany_of_mem (by simpa [Function.comp_def] using hn)
    (List.mem_map.2 ⟨o, h, rfl⟩)

end

/-- Outputs with names of different trees. -/
theorem Node.nodup_stepNames {nodes : List Node} {os : List StepOutput}
    (hn : (names nodes).Nodup) (h : List.Forall₂ (fun n o => o.stepName ∈ names [n]) nodes os) :
    (os.map StepOutput.stepName).Nodup := by
  have hmem {nodes : List Node} {os : List StepOutput}
      (h : List.Forall₂ (fun n o => o.stepName ∈ names [n]) nodes os) :
      ∀ o ∈ os, o.stepName ∈ names nodes := by
    induction h with
    | nil => simp
    | cons ho _ ih =>
      rw [List.forall_mem_cons, names_cons]
      exact ⟨List.mem_append_left _ ho, fun o h => List.mem_append_right _ (ih o h)⟩
  induction h with
  | nil => exact .nil
  | cons ho hrest ih =>
    rw [names_cons] at hn
    obtain ⟨-, htail, hne⟩ := List.nodup_append.1 hn
    refine List.nodup_cons.2 ⟨fun hname => ?_, ih htail⟩
    obtain ⟨o', ho', heq⟩ := List.mem_map.1 hname
    exact hne _ ho _ (hmem hrest o' ho') heq.symm

/-- What a run reports: the outputs of its top-level nodes in their order, each with a name of the
tree of its node, and the metrics of each under its name. -/
structure Reported (nodes : List Node) (t : List Happening) (run : WorkflowRun) : Prop where
  given : outputsOf nodes t = (nodes.map Node.name).zip run.stepResponses
  named : List.Forall₂ (fun n o => o.stepName ∈ names [n])
    (nodes.take run.stepResponses.length) run.stepResponses
  distinct : (run.stepResponses.map StepOutput.stepName).Nodup
  total : run.metrics.totalSteps = run.stepResponses.length
  size : run.metrics.steps.size = run.stepResponses.length
  entries : ∀ o ∈ run.stepResponses,
    run.metrics.steps.get? o.stepName = some (StepMetrics.ofOutput o)

namespace Workflow

variable {w : Workflow} {nodes : List Node} {input : ExecutionInput} {runId : String}

/-- No step is lost from the report, in every run of valid nodes. The responses of a run that has
ended are exactly the outputs that its top-level nodes gave in it, in their order. Each has a name
of the tree of its node, so that no two have the same name, whatever names the executors put into
their outputs. The metrics count them all and hold those of each response under its name and
nothing else. -/
theorem responses_reported (hp : w.plan = .nodes nodes) (hv : w.validate = .ok ())
    {token : Ref CancelToken} {feed : Option (Ref Feed)} {e e' : Engine}
    {p : Fiber Engine (Except Fault WorkflowRun)}
    (h : Evolves (Company runId token) (w.executeRun input runId token feed) e p e') :
    ∃ t, e'.journal.of runId = e.journal.of runId ++ t ∧
      (∀ run, p = .done (.ok run) → ∃ fault final, .ended fault run final ∈ t) ∧
      ∀ fault run final, .ended fault run final ∈ t → Reported nodes t run := by
  have hstage := stage_of_evolves h
  obtain ⟨t, ht, -, hdone⟩ := hstage.told
  refine ⟨t, ht, hdone, fun fault run final he => ?_⟩
  have hn := nodup_of_validate hp hv
  obtain ⟨ctx, run₀, base, e₀, e₁, run', u, hb, hw, rfl, haccount, rfl⟩ := hstage.ended ht he
  obtain ⟨q, htour, hq⟩ := tour_of_account hp haccount
  obtain ⟨⟨out, courses⟩, rfl, rfl⟩ := Option.map_eq_some_iff.1 hq.symm
  obtain ⟨os, hos, hlen, hgiven⟩ := outputsOf_of_tour htour hn rfl
  obtain ⟨before, os', hinitial, harises, hos'⟩ :=
    arises_of_work hp (fun s _ => s.gives_name) hw
  rw [hb.stepResponses, List.nil_append] at hos hos'
  obtain rfl : os = run'.stepResponses := hos.symm
  obtain rfl : os' = run'.stepResponses := hos'.symm
  have hbefore : before = nodes.take run'.stepResponses.length :=
    harises.length_eq ▸ List.prefix_iff_eq_take.1 hinitial
  have hnamed : List.Forall₂ (fun n o => o.stepName ∈ names [n])
      (nodes.take run'.stepResponses.length) run'.stepResponses :=
    hbefore ▸ harises.imp fun n o ho => stepName_of_arises (fun _ _ h => h) ho
  have htake : (names (nodes.take run'.stepResponses.length)).Nodup := by
    rw [← List.take_append_drop run'.stepResponses.length nodes, names, descendants_append,
      List.map_append] at hn
    exact (List.nodup_append.1 hn).1
  have hdistinct := nodup_stepNames htake hnamed
  have hmetrics := run'.metrics_conclude fault
  refine ⟨?_, by simpa using hnamed, by simpa using hdistinct, ?_, ?_, ?_⟩
  · rw [outputsOf_cons_began, outputsOf_append, hgiven, WorkflowRun.stepResponses_conclude]
    exact List.append_nil _
  · rw [hmetrics, WorkflowRun.stepResponses_conclude]
    rfl
  · rw [hmetrics, WorkflowRun.stepResponses_conclude]
    exact WorkflowMetrics.size_ofOutputs hdistinct
  · rw [hmetrics, WorkflowRun.stepResponses_conclude]
    exact fun o ho => WorkflowMetrics.get?_ofOutputs hdistinct ho

/-- Gives an output under another name than its own. -/
private def sorter (name : String) (stop : Bool) : Step where
  name
  executor := .ofFunction name fun _ => .ok { StepOutput.ofText name with stepName := "sorted", stop }

/-- A choice of two, then a loop that its first step stops, then a rest that is never taken. -/
private def sorting : Workflow where
  id := "sorting"
  name := "sorting"
  plan := .nodes
    [.router "pick" none (fun _ => .ok "left")
      [.steps "left" none [.step (sorter "sift" false)], .step (sorter "right" false)],
     .loop "again" none 3 none [.step (sorter "halt" true)], .step (sorter "rest" false)]
  slot := ⟨0⟩

private def mailroom : Engine :=
  { start := ⟨0, 0⟩
    states := ⟨[∅]⟩
    tokens := ⟨[{}]⟩
    slots := ⟨[{ id := "session", state := ⟨0⟩ }]⟩ }

private theorem poll_sorting : (match (sorting.executeRun {} "run" ⟨0⟩ none).poll mailroom with
    | .done (.ok run) _ => run.stepResponses.map StepOutput.stepName == ["left", "halt"]
    | _ => false) = true := by
  decide +kernel

/-- A run of two responses, one under the name of a choice, one under that of a step in a loop. -/
theorem responses_reported_sorting : ∃ nodes, sorting.plan = .nodes nodes ∧
    sorting.validate = .ok () ∧ ∃ run e,
      Evolves (Company "run" ⟨0⟩) (sorting.executeRun {} "run" ⟨0⟩ none) mailroom
        (.done (.ok run)) e ∧
      run.stepResponses.map StepOutput.stepName = ["left", "halt"] ∧
      run.metrics.totalSteps = 2 ∧ Reported nodes (e.journal.of "run") run := by
  have hvalid : sorting.validate = .ok () := by rfl
  have hends := poll_sorting
  cases hpoll : (sorting.executeRun {} "run" ⟨0⟩ none).poll mailroom with
  | waiting p e | aborted message e =>
    rw [hpoll] at hends
    cases hends
  | done r e =>
    rw [hpoll] at hends
    cases r with
    | error fault => cases hends
    | ok run =>
      have hnames : run.stepResponses.map StepOutput.stepName = ["left", "halt"] := by
        simpa using hends
      have h : Evolves (Company "run" ⟨0⟩) (sorting.executeRun {} "run" ⟨0⟩ none) mailroom
          (.done (.ok run)) e := evolves_of_poll_done hpoll
      obtain ⟨t, ht, hdone, hreported⟩ := responses_reported rfl hvalid h
      obtain rfl : e.journal.of "run" = t := ht
      obtain ⟨fault, final, he⟩ := hdone run rfl
      have hrun := hreported fault run final he
      refine ⟨_, rfl, hvalid, run, e, h, hnames, ?_, hrun⟩
      rw [hrun.total, ← List.length_map StepOutput.stepName, hnames]
      rfl

end Workflow

end WorkflowEngine
