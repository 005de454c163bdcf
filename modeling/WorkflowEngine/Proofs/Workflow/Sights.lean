import WorkflowEngine.Executor.Ready
import WorkflowEngine.Proofs.Node.Sights
import WorkflowEngine.Proofs.Workflow.Halting

/-!
# What the nodes of runs are given

Main statement: in every run of valid nodes a node is given the message and the data of the run,
and of earlier outputs exactly those that members of the sequences around it have completed, be
they in the current execution of a workflow, a group or a condition, or in any iteration so far of
a loop.
-/

namespace WorkflowEngine

open Node Fiber

/-- A visit that is not over has told what it has told by now. -/
theorem Node.Around.under_way {n : Node} {input : StepInput} {t : List Happening}
    {A : TaskAccount (StepOutput × Course)} {q : Option (Except Fault (StepOutput × Course))}
    (h : n.Around input A t q) : n.Around input A t none := by
  cases h with
  | idle | cancelled => exact .idle
  | under h | fault h => exact .under h
  | gave h hd => exact .gave h hd fun _ hr => by cases hr

/-- A tour tells what the sequence of its nodes tells. -/
theorem sequence_of_tour {nodes : List Node} {input : StepInput} {run : WorkflowRun}
    {t : List Happening} {r : Option Toured} (h : Tour nodes input run t r) :
    ∃ q, visitSequence nodes input t q := by
  induction h with
  | finished => exact ⟨none, TaskAccount.ofResult_none _⟩
  | under h => exact ⟨none, .under (Around.under_way h)⟩
  | fault h => exact ⟨_, .fault h⟩
  | @halted n rest input run t o c h ho =>
    have hnext : visitSequence (n :: rest) input (t ++ []) none :=
      .next h (by simp [ho, TaskAccount.ret, TaskAccount.ofResult])
    exact ⟨none, by simpa using hnext⟩
  | @next n rest input run t u o c r h ho hrest ih =>
    obtain ⟨q, hq⟩ := ih
    refine ⟨q.map (Except.map fun p => (p.1.after o, c :: p.2)), .next h ?_⟩
    dsimp only
    rw [if_neg (by simp [ho])]
    exact ⟨q, hq, rfl⟩

namespace Workflow

variable {w : Workflow} {nodes : List Node} {input : ExecutionInput} {runId : String}
  {t : List Happening}

/-- All that a run tells between its beginning and its end is seen as it should be. -/
theorem Told.sighted (h : w.Told input runId t) (hp : w.plan = .nodes nodes)
    (hn : (names nodes).Nodup) : t = [] ∨ ∃ base u after, t = .began base :: (u ++ after) ∧
      Sighted nodes (scopes nodes) input.toStepInput [.began base] u ∧
      ∀ a ∈ after, a.given? = none := by
  have hsighted {base : SessionState} {run : WorkflowRun} {u : List Happening}
      {r : Option (WorkflowRun × Option Fault)} (hu : w.account input run u r) :
      Sighted nodes (scopes nodes) input.toStepInput [.began base] u := by
    obtain ⟨q, hq, -⟩ := tour_of_account hp hu
    obtain ⟨q', hq'⟩ := sequence_of_tour hq
    have hseen := (sighted_sequence nodes hn input.toStepInput u q' hq').1
    refine hseen.recast (fun _ hx => hx) fun u₁ a u₂ x i _ _ _ hs => ?_
    rw [List.nil_append] at hs
    refine Sees.within [{ members := nodes }] [{ members := nodes }] hs
      (fun _ => belongsTo_of_among nodes) [.began base] rfl fun s hmem => ?_
    obtain rfl := List.mem_singleton.1 hmem
    exact ⟨fun y hy => (nomatch hy), (hs.turn _ (List.mem_cons_self ..)).completed⟩
  cases h with
  | nothing => exact .inl rfl
  | under hrun ht => exact .inr ⟨_, _, [], by rw [List.append_nil], hsighted ht, fun _ h => by cases h⟩
  | ended hrun ht =>
    refine .inr ⟨_, _, _, rfl, hsighted ht, fun a ha => ?_⟩
    obtain rfl := List.mem_singleton.1 ha
    rfl

/-- What a node can see, in every run of valid nodes. Whenever a node is entered, or the executor
of a step is called, its input has the message and the data of the run. Of earlier outputs it has
the latest of exactly those members of the sequences around it that have completed in the current
execution of the owner of the sequence: all siblings before, and in a loop after its first
iteration the whole body. Its content is that of the latest of these in the innermost sequence
where there is one. -/
theorem node_sees_completed (hp : w.plan = .nodes nodes) (hv : w.validate = .ok ())
    {token : Ref CancelToken} {feed : Option (Ref Feed)} {e e' : Engine}
    {p : Fiber Engine (Except Fault WorkflowRun)}
    (h : Evolves (Company runId token) (w.executeRun input runId token feed) e p e') :
    ∃ t, e'.journal.of runId = e.journal.of runId ++ t ∧
      (∀ run, p = .done (.ok run) → ∃ fault final, .ended fault run final ∈ t) ∧
      ∀ t₁ a t₂ x i, t = t₁ ++ a :: t₂ → a.given? = some (x, i) →
        x ∈ names nodes ∧ Sight nodes input.toStepInput t₁ x i := by
  obtain ⟨t, ht, htold, hdone⟩ := (stage_of_evolves h).told
  have hn := nodup_of_validate hp hv
  refine ⟨t, ht, hdone, fun t₁ a t₂ x i hsplit ha => ?_⟩
  rcases htold.sighted hp hn with rfl | ⟨base, u, after, rfl, hu, hafter⟩
  · simp at hsplit
  -- What is given an input stands between the beginning and what comes after.
  obtain ⟨u₁, u₂, rfl, hu₁⟩ : ∃ u₁ u₂, t₁ = .began base :: u₁ ∧ u = u₁ ++ a :: u₂ := by
    cases t₁ with
    | nil =>
      cases hsplit
      cases ha
    | cons b u₁ =>
      obtain ⟨rfl, hrest⟩ := List.cons.inj hsplit
      rcases List.append_eq_append_iff.1 hrest with ⟨v, -, hv⟩ | ⟨v, rfl, hv⟩
      · have hnone := hafter a (by simp [hv])
        rw [hnone] at ha
        cases ha
      · cases v with
        | nil =>
          obtain rfl : after = a :: t₂ := by simpa using hv.symm
          have hnone := hafter a (List.mem_cons_self ..)
          rw [hnone] at ha
          cases ha
        | cons b v =>
          cases hv
          exact ⟨u₁, v, rfl, rfl⟩
  refine ⟨hu.name (hu₁ ▸ by simp) (Happening.node?_of_given? ha), ?_⟩
  exact (hu.sees u₁ a u₂ x i hu₁ ha).sight hn rfl rfl

/-- Says its own name after what it builds on. -/
private def say (name : String) : Step where
  name
  executor := .ofFunction name fun input =>
    .ok (.ofText (Content.textOf input.basis ++ " " ++ name))

/-- A draft and two checks side by side, twice after a plan. -/
private def writing : Workflow where
  id := "writing"
  name := "writing"
  plan := .nodes [.step (say "plan"), .loop "revise" none 2 none
    [.step (say "draft"), .parallel "checks" none [.step (say "style"), .step (say "facts")]]]
  slot := ⟨0⟩

private def study : Engine :=
  { start := ⟨0, 0⟩
    states := ⟨[∅]⟩
    tokens := ⟨[{}]⟩
    slots := ⟨[{ id := "session", state := ⟨0⟩ }]⟩ }

private theorem poll_writing : (match (writing.executeRun {} "run" ⟨0⟩ none).poll study with
    | .done (.ok _) e => (e.journal.of "run").any fun a => match a with
        | .entered x i => x == "style" && i.previousOutputs.keys == ["checks", "draft", "plan"]
        | _ => false
    | _ => false) = true := by
  decide +kernel

/-- In the second iteration a check sees the plan, the latest draft and the checks of the first
iteration, but not the check beside it. -/
theorem node_sees_completed_writing : ∃ nodes, writing.plan = .nodes nodes ∧
    writing.validate = .ok () ∧ ∃ run e t₁ i t₂,
      Evolves (Company "run" ⟨0⟩) (writing.executeRun {} "run" ⟨0⟩ none) study (.done (.ok run)) e ∧
      e.journal.of "run" = t₁ ++ .entered "style" i :: t₂ ∧
      i.previousOutputs.keys = ["checks", "draft", "plan"] ∧
      Sight nodes {} t₁ "style" i := by
  have hvalid : writing.validate = .ok () := by rfl
  have hends := poll_writing
  cases hpoll : (writing.executeRun {} "run" ⟨0⟩ none).poll study with
  | waiting p e | aborted message e =>
    rw [hpoll] at hends
    cases hends
  | done r e =>
    rw [hpoll] at hends
    cases r with
    | error fault => cases hends
    | ok run =>
      obtain ⟨a, ha, hsees⟩ := List.any_eq_true.1 hends
      obtain ⟨i, rfl, hkeys⟩ : ∃ i, a = .entered "style" i ∧
          i.previousOutputs.keys = ["checks", "draft", "plan"] := by
        split at hsees
        · simp only [Bool.and_eq_true, beq_iff_eq] at hsees
          exact ⟨_, by rw [hsees.1], hsees.2⟩
        · cases hsees
      obtain ⟨t₁, t₂, hsplit⟩ := List.append_of_mem ha
      have h : Evolves (Company "run" ⟨0⟩) (writing.executeRun {} "run" ⟨0⟩ none) study
          (.done (.ok run)) e := evolves_of_poll_done hpoll
      obtain ⟨t, ht, -, hsight⟩ := node_sees_completed rfl hvalid h
      obtain rfl : e.journal.of "run" = t := ht
      exact ⟨_, rfl, hvalid, run, e, t₁, i, t₂, h, hsplit, hkeys,
        (hsight t₁ _ t₂ "style" i hsplit rfl).2⟩

end Workflow

end WorkflowEngine
