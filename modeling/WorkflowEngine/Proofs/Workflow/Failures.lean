import WorkflowEngine.Executor.Ready
import WorkflowEngine.Proofs.Node.Culprits
import WorkflowEngine.Proofs.Node.Faults
import WorkflowEngine.Proofs.Node.Liveliness
import WorkflowEngine.Proofs.Workflow.Halting

/-!
# Failures of runs

What an executor can break. Its own faults are made into outputs by the step that calls it; what ends
a run with a fault is its cancellation, or a callback. Main statement: a run of valid nodes fails
exactly when it has a failure, and that names a node of the workflow: the one whose callback raised
the fault, or who answers for the step that failed, with the error of that node's output.
-/

namespace WorkflowEngine

open Node Fiber

/-- What a watched fiber tells in company. -/
theorem Company.watched {ctx : RunContext} {α : Type} {p p' : Fiber Engine α}
    {A : Account (Option Happening) α} {e e' : Engine} (hp : Fiber.Obeys ctx.watch p A)
    (h : Evolves (Company ctx.runId ctx.token) p e p' e') :
    ∃ t, e'.journal.of ctx.runId = e.journal.of ctx.runId ++ t.reduceOption ∧
      (none ∈ t → e'.isCancelled ctx.token) ∧ Fiber.Obeys ctx.watch p' (A.after t) := by
  induction h with
  | refl => exact ⟨[], by simp, by simp, by simpa using hp⟩
  | move _ hm ih =>
    obtain ⟨t, ht, hc, hp⟩ := ih
    obtain ⟨u, ⟨hacts, hnone⟩, hp⟩ := hp.of_moves hm
    refine ⟨t ++ u, ?_, fun h => ?_, by simpa using hp⟩
    · rw [hacts.of_journal, ht, List.reduceOption_append, List.append_assoc]
    · exact (List.mem_append.1 h).elim (fun h => hacts.tokens _ (hc h)) hnone
  | other _ ho ih =>
    obtain ⟨t, ht, hc, hp⟩ := ih
    exact ⟨t, ho.journal.trans ht, fun h => ho.cancelled (hc h), hp⟩

/-- The fault of a task that has ended is that of a cancelled run, or has a cause. -/
theorem RunTask.Excused.fault {ctx : RunContext} {C : Causes} {α : Type} {t : RunTask α}
    (ht : RunTask.Excused ctx C [] t) {fault : Fault} {e e' : Engine}
    (h : Evolves (Company ctx.runId ctx.token) t.run e (.done (.error fault)) e') :
    fault = .cancelled ∧ e'.isCancelled ctx.token = true ∨
      ∃ u, e'.journal.of ctx.runId = e.journal.of ctx.runId ++ u ∧ C.of u fault := by
  obtain ⟨u, hj, hc, hdone⟩ := Company.watched ht h
  rcases (Account.after_nil_apply _ _ _).1 hdone.now fault rfl with ⟨hf, hu⟩ | hf
  · exact .inl ⟨hf, hc hu⟩
  · exact .inr ⟨_, hj, hf⟩

theorem Node.Raised.named {nodes : List Node} {t : List Happening} {fault : Fault}
    (h : Raised nodes t fault) : ∃ x ∈ names nodes, fault.node? = some x := by
  cases h with
  | condition hn | loop hn | router hn | unknown hn => exact ⟨_, List.mem_map_of_mem hn, rfl⟩

/-! ## Runs that a fault ends -/

/-- The histories of the work of a run whose fault is excused. -/
def Causes.fate (C : Causes) : Account (Option Happening) (WorkflowRun × Option Fault) := fun t r =>
  ∀ run fault, r = some (run, some fault) →
    fault = .cancelled ∧ none ∈ t ∨ C.of t.reduceOption fault

namespace Workflow

variable {ctx : RunContext} {nodes : List Node}

theorem excused_runNodes (h : Fit nodes) (input : StepInput) (run : WorkflowRun) :
    Fiber.Obeys ctx.watch (runNodes ctx nodes input run) (raised nodes).fate := by
  induction nodes generalizing input run with
  | nil => exact fun _ _ hr => by cases hr
  | cons n rest ih =>
    have hhead (m : Node) (hm : m ∈ descendants [n]) : m ∈ descendants (n :: rest) :=
      mem_descendants_of_mem (List.mem_cons_self ..) hm
    have htail (m : Node) (hm : m ∈ descendants rest) : m ∈ descendants (n :: rest) :=
      mem_descendants_tail hm
    have hn : RunTask.Excused ctx (raised (n :: rest)) [] (n.execute input ctx) :=
      excused_among hhead (excused_execute (h.mono hhead) input)
    unfold runNodes
    refine Fiber.Obeys.bind hn (fun t _ _ _ hr => by cases hr) fun t q ht => ?_
    cases q with
    | error fault =>
      refine Fiber.Obeys.of_done fun run' fault' hr => ?_
      cases hr
      exact ht fault rfl
    | ok o =>
      dsimp only
      split
      · exact Fiber.Obeys.of_done fun _ _ hr => by cases hr
      · refine (ih (h.mono htail) _ _).mono fun u r hu run' fault hr => ?_
        refine (hu run' fault hr).imp (fun hc => ⟨hc.1, List.mem_append_right _ hc.2⟩) fun hf => ?_
        refine Raised.mono htail ?_ hf
        rw [List.reduceOption_append]
        exact List.subset_append_right ..

variable {w : Workflow} {input : ExecutionInput} {runId : String} {token : Ref CancelToken}
  {feed : Option (Ref Feed)} {before : List Happening}

theorem excused_work (hp : w.plan = .nodes nodes) (h : Fit nodes) (run : WorkflowRun) :
    Fiber.Obeys ctx.watch (w.work input ctx run) (raised nodes).fate := by
  unfold work runPlan
  rw [hp]
  exact (RunContext.silent_emit ctx _).watched.silent_bind (fun _ _ hr => by cases hr)
    fun _ => excused_runNodes h _ run

end Workflow

/-! ## Runs that a step failed -/

/-- How a tour without a fault leaves its run: nothing failed, or the run has the name and the error
of who answers for what failed. -/
inductive Answered (nodes : List Node) (t : List Happening) (run run' : WorkflowRun) : Prop
  | well (hs : run'.status = run.status) (hf : run'.failure = run.failure)
  | failed {o : StepOutput} {message : String} (hb : Blames nodes t o)
      (hc : ∃ s p, step s ∈ descendants nodes ∧ .gave s.name p ∈ t ∧ p.success = false)
      (he : o.error = some message) (hs : run'.status = .error)
      (hf : run'.failure = some ⟨o.stepName, message⟩)

theorem WorkflowRun.failure_note_of_failed {o : StepOutput} {message : String} (run : WorkflowRun)
    (h : o.success = false) (he : o.error = some message) :
    (run.note o).failure = some ⟨o.stepName, message⟩ := by
  unfold note
  simp [h, he]

theorem answered_of_tour {nodes : List Node} {input : StepInput} {run run' : WorkflowRun}
    {t : List Happening} {r : Option Toured} {courses : List Course} (h : Tour nodes input run t r)
    (hn : (names nodes).Nodup) (hr : r = some ((run', none), courses)) :
    Answered nodes t run run' := by
  induction h generalizing courses with
  | finished ho =>
    cases ho _ hr
    exact .well rfl rfl
  | under h => cases hr
  | fault h => cases hr
  | @halted n rest input run t o c h ho =>
    cases hr
    have hhead := (PartOf.refl hn).head
    obtain ⟨ht, hv⟩ := n.says_visit input hhead.nodup _ _ h
    have hblames : Blames [n] t o := (n.blames_visit input hhead.nodup _ _ h).2 _ rfl
    cases hsuccess : o.success with
    | true => exact .well (by simp [hsuccess]) (run.failure_note hsuccess)
    | false =>
      obtain ⟨message, herror⟩ := Option.isSome_iff_exists.1 (hblames.explains hsuccess)
      obtain ⟨s, p, hs, hp, hf⟩ := (hv _ rfl).result.cause hsuccess
      exact .failed (hblames.part (t := []) hhead (fun _ => culprit_head hn) ht .nil)
        ⟨s, p, hhead.mem _ hs, hp, hf⟩ herror (by simp [hsuccess])
        (run.failure_note_of_failed hsuccess herror)
  | @next n rest input run t u o c r h ho hrest ih =>
    have htail := (PartOf.refl hn).tail
    obtain ⟨-, hv⟩ := n.says_visit input (PartOf.refl hn).head.nodup _ _ h
    have hc : Calm t := (hv _ rfl).result.calm ho
    have hsuccess := StepOutput.success_of_halts ho
    obtain ⟨⟨out, courses'⟩, rfl, hout⟩ := Option.map_eq_some_iff.1 hr
    cases hout
    cases ih htail.nodup rfl with
    | well hs hf =>
      exact .well (hs.trans (by simp [hsuccess])) (hf.trans (run.failure_note hsuccess))
    | failed hb hcause he hs hf =>
      obtain ⟨s, p, hstep, hp, hpf⟩ := hcause
      exact .failed (hb.part htail (fun _ => culprit_tail hn) (order_of_tour hrest htail.nodup) hc)
        ⟨s, p, htail.mem _ hstep, List.mem_append_right _ hp, hpf⟩ he hs hf

/-- Why a run failed: a callback raised the fault that ended it, or a step failed, and an output of
the node that answers for it has the error. -/
inductive Explained (nodes : List Node) (t : List Happening) (fault : Option Fault)
    (failure : RunFailure) : Prop
  | raised {f : Fault} (hf : fault = some f) (hr : Raised nodes t f)
      (hn : f.node? = some failure.stepName) (hm : failure.message = f.message)
  | failed (hf : fault = none)
      (hc : ∃ s p, step s ∈ descendants nodes ∧ .gave s.name p ∈ t ∧ p.success = false)
      (hb : ∀ s p, step s ∈ descendants nodes → .gave s.name p ∈ t → p.success = false →
        failure.stepName = culprit nodes s.name ∧ ∃ q, .gave failure.stepName q ∈ t ∧
          q.success = false ∧ q.error = some failure.message)

/-- What is told before and after the work of the run does not matter. -/
theorem Explained.told {nodes : List Node} {t : List Happening} {fault fault' : Option Fault}
    {failure : RunFailure} {base final : SessionState} {run : WorkflowRun}
    (h : Explained nodes t fault failure) :
    Explained nodes (.began base :: (t ++ [.ended fault' run final])) fault failure := by
  have hmem {x : String} {p : StepOutput} :
      .gave x p ∈ Happening.began base :: (t ++ [.ended fault' run final]) ↔ .gave x p ∈ t := by
    simp
  cases h with
  | raised hf hr hn hm =>
    refine .raised hf (hr.mono (fun _ hm => hm) fun a ha => ?_) hn hm
    exact List.mem_cons_of_mem _ (List.mem_append_left _ ha)
  | failed hf hc hb =>
    obtain ⟨s, p, hs, hp, hpf⟩ := hc
    refine .failed hf ⟨s, p, hs, hmem.2 hp, hpf⟩ fun s p hs hp hpf => ?_
    obtain ⟨hname, q, hq, hfails⟩ := hb s p hs (hmem.1 hp) hpf
    exact ⟨hname, q, hmem.2 hq, hfails⟩

theorem Explained.named {nodes : List Node} {t : List Happening} {fault : Option Fault}
    {failure : RunFailure} (h : Explained nodes t fault failure) :
    failure.stepName ∈ names nodes := by
  cases h with
  | raised hf hr hn hm =>
    obtain ⟨x, hx, hnode⟩ := hr.named
    rw [hn] at hnode
    exact Option.some.inj hnode ▸ hx
  | failed hf hc hb =>
    obtain ⟨s, p, hs, hp, hpf⟩ := hc
    rw [(hb s p hs hp hpf).1]
    exact culprit_mem_names (List.mem_map_of_mem hs)

namespace Workflow

variable {nodes : List Node} {w : Workflow} {input : ExecutionInput} {runId : String}
  {token : Ref CancelToken} {feed : Option (Ref Feed)} {before : List Happening}
  {t : List Happening} {run₀ run : WorkflowRun}

/-- What became of a run whose work told something. -/
private theorem explained_of_tour (hn : (names nodes).Nodup) (hinit : Initial input runId run₀)
    {fault : Option Fault} {courses : List Course}
    (htour : Tour nodes input.toStepInput run₀ t (some ((run, fault), courses)))
    (hfault : ∀ f, fault = some f → f = .cancelled ∨ Raised nodes t f) :
    ((run.conclude fault).status = .error ↔ (run.conclude fault).failure.isSome) ∧
      ∀ failure, (run.conclude fault).failure = some failure → Explained nodes t fault failure := by
  cases fault with
  | none =>
    cases answered_of_tour htour hn rfl with
    | well hs hf =>
      have hstatus : run.status = .running := hs.trans hinit.status
      have hnone : (run.conclude none).failure = none := by
        simp [WorkflowRun.conclude, hstatus, hf.trans hinit.failure]
      simp [hnone, run.status_conclude_none (.inl hstatus), hstatus]
    | @failed o message hb hc he hs hf =>
      have hfailure : (run.conclude none).failure = some ⟨o.stepName, message⟩ := by
        simp [WorkflowRun.conclude, hs, hf]
      refine ⟨by simp [hfailure, run.status_conclude_none (.inr hs), hs], fun failure hfail => ?_⟩
      rw [hfailure] at hfail
      cases hfail
      refine .failed rfl hc fun s p hs hp hpf => ?_
      obtain ⟨hname, q, hq, hfails, herror⟩ := hb.blamed s p hs hp hpf
      exact ⟨hname, q, hq, hfails, herror.trans he⟩
  | some f =>
    obtain ⟨-, hnone⟩ : run.status = .running ∧ run.failure = none := by
      rcases status_of_tour htour hinit.status hinit.failure rfl with h | ⟨-, h⟩
      · exact h
      · cases h
    rcases hfault f rfl with rfl | hraised
    · simp [WorkflowRun.conclude, hnone]
    · obtain ⟨x, -, hx⟩ := hraised.named
      have hconclude : (run.conclude (some f)).status = .error ∧
          (run.conclude (some f)).failure = some ⟨x, f.message⟩ := by
        cases f <;> cases hx <;> exact ⟨rfl, rfl⟩
      refine ⟨by simp [hconclude.1, hconclude.2], fun failure hfail => ?_⟩
      rw [hconclude.2] at hfail
      cases hfail
      exact .raised rfl hraised hx rfl

/-- The work of a run that is over, and what the journal tells of its end. -/
private theorem Stage.over {p : Fiber Engine (Except Fault WorkflowRun)} {e : Engine}
    (h : w.Stage input runId token feed before p e) (hp : p = .done (.ok run)) :
    ∃ ctx run₀ base e₀ e₁ run' fault t final,
      w.Begun input runId token feed before ctx run₀ base e₀ ∧
      Evolves (Company runId token) (w.work input ctx run₀) e₀ (.done (run', fault)) e₁ ∧
      run = run'.conclude fault ∧ w.account input run₀ t (some (run', fault)) ∧
      e₁.journal.of runId = before ++ .began base :: t ∧
      e.journal.of runId = before ++ .began base :: t ++ [.ended fault run final] := by
  cases h with
  | entering hj =>
    unfold executeRun at hp
    split at hp <;> cases hp
  | refused hj | starting hj => cases hp
  | @working _ _ ctx run base committed q hb hw => cases q <;> cases hp
  | left hb hw hl =>
    obtain ⟨t, ht, -, hj, hend⟩ := hb.story_ended hw hl
    rcases leaving_cases hl with h | h | ⟨f, event, -, h⟩ <;> rw [hp] at h <;> cases h
    exact ⟨_, _, _, _, _, _, _, t, _, hb, hw, rfl, ht, hj, hend⟩

/-- What an executor can break, in valid nodes whose executors have no fatal faults of their own.
Wherever a node runs, its fault is that of a cancelled run or was raised by a callback of the tree,
its output has an error if it failed, and it comes to its end when its audience goes on. A run has
a failure exactly when it ends with an error. The failure names a node of the workflow: the one
whose callback raised the fault that ended the run, or who answers for the step that failed, the
outermost parallel node over the step or the step itself, with the error of that node's output. -/
theorem failures_explained (hv : validateNodes nodes = .ok ()) (hm : Mild nodes) :
    (∀ n ∈ descendants nodes, ∀ input ctx e p e',
      Evolves (Company ctx.runId ctx.token) (n.execute input ctx).run e p e' →
      (∀ fault, p = .done (.error fault) → fault = .cancelled ∧ e'.isCancelled ctx.token = true ∨
        ∃ t, e'.journal.of ctx.runId = e.journal.of ctx.runId ++ t ∧ Raised nodes t fault) ∧
      (∀ o, p = .done (.ok o) → o.success = false → o.error.isSome) ∧
      (Steady [n] → (audience ctx.feed).sound e' →
        ∃ r e'', Evolves (audience ctx.feed).helps p e' (.done r) e'')) ∧
    ∀ (w : Workflow) input runId token feed e e' run, w.plan = .nodes nodes →
      Evolves (Company runId token) (w.executeRun input runId token feed) e (.done (.ok run)) e' →
      ∃ t fault final, e'.journal.of runId = e.journal.of runId ++ t ∧
        .ended fault run final ∈ t ∧ (run.status = .error ↔ run.failure.isSome) ∧
        ∀ failure, run.failure = some failure →
          failure.stepName ∈ names nodes ∧ Explained nodes t fault failure := by
  have hn := nodup_of_validateNodes hv
  have hfit : Fit nodes := ⟨hm, fun m => shapeFault?_of_validateNodes hv⟩
  refine ⟨fun n hmem input ctx e p e' h => ⟨?_, ?_, fun hsteady hs => finishes hsteady h hs⟩, ?_⟩
  · rintro fault rfl
    have hin (m : Node) (hm : m ∈ descendants [n]) : m ∈ descendants nodes :=
      (sublist_of_mem hmem).subset hm
    exact RunTask.Excused.fault (excused_among hin (excused_execute (hfit.mono hin) input)) h
  · rintro o rfl
    obtain ⟨t, -, -, hdone⟩ := Company.story rfl (n.obeys_visit input ctx) h
    obtain ⟨q, hq, hr⟩ := (Account.after_nil_apply _ _ _).1 hdone.now
    obtain ⟨c, rfl⟩ : ∃ c, q = some (.ok (o, c)) := by
      rcases q with _ | _ | ⟨_, c⟩ <;> cases hr
      exact ⟨c, rfl⟩
    exact ((n.blames_visit input (nodup_of_mem hmem hn) _ _ hq).2 _ rfl).explains
  · intro w input runId token feed e e' run hp h
    obtain ⟨ctx, run₀, base, e₀, e₁, run', fault, t, final, hb, hw, rfl, ht, hj, hend⟩ :=
      (stage_of_evolves h).over rfl
    obtain ⟨q, htour, hq⟩ := tour_of_account hp ht
    obtain ⟨⟨out, courses⟩, rfl, rfl⟩ := Option.map_eq_some_iff.1 hq.symm
    have hfault (f : Fault) (hf : fault = some f) : f = .cancelled ∨ Raised nodes t f := by
      subst hf
      rw [← hb.contextId, ← hb.token] at hw
      obtain ⟨u, hu, -, hdone⟩ := Company.watched (excused_work hp hfit run₀) hw
      rw [hb.contextId, hb.journal, hj, ← List.singleton_append, ← List.append_assoc] at hu
      obtain rfl : t = u.reduceOption := List.append_cancel_left hu
      exact ((Account.after_nil_apply _ _ _).1 hdone.now _ _ rfl).imp_left And.left
    obtain ⟨hstatus, hfailure⟩ := explained_of_tour hn hb.toInitial htour hfault
    refine ⟨.began base :: (t ++ [.ended fault (run'.conclude fault) final]), fault, final,
      by simp [hend], by simp, hstatus, fun failure hf => ⟨(hfailure failure hf).named, ?_⟩⟩
    exact (hfailure failure hf).told

/-- A check that fails beside one that does not, within a group. -/
private def review : List Node :=
  [.steps "review" none [.parallel "checks" none
    [.step { name := "facts", executor := .failing "facts" "no source" },
      .step { name := "style", executor := .echo "style" .function }]]]

private def reviewing : Workflow where
  id := "reviewing"
  name := "reviewing"
  plan := .nodes review
  slot := ⟨0⟩

private def office : Engine :=
  { start := ⟨0, 0⟩
    states := ⟨[∅]⟩
    tokens := ⟨[{}]⟩
    slots := ⟨[{ id := "session", state := ⟨0⟩ }]⟩ }

private theorem poll_reviewing : (match (reviewing.executeRun {} "run" ⟨0⟩ none).poll office with
    | .done (.ok run) _ => run.failure.map RunFailure.stepName == some "checks"
    | _ => false) = true := by
  decide +kernel

/-- The parallel node answers for the check that fails, and its output has the error of the run. -/
theorem failures_explained_reviewing :
    validateNodes review = .ok () ∧ Mild review ∧ ∃ run e failure t fault,
      Evolves (Company "run" ⟨0⟩) (reviewing.executeRun {} "run" ⟨0⟩ none) office (.done (.ok run)) e ∧
      run.status = .error ∧ run.failure = some failure ∧ failure.stepName = "checks" ∧
      Explained review t fault failure := by
  have hvalid : validateNodes review = .ok () := by rfl
  have hmild : Mild review := by
    intro s hs
    simp only [review, descendants, inside, List.mem_cons, List.mem_append, List.not_mem_nil, or_false,
      reduceCtorEq, false_or, step.injEq] at hs
    rcases hs with rfl | rfl
    · exact fun _ _ => ⟨rfl, rfl⟩
    · exact fun _ _ => ⟨trivial, trivial⟩
  have hends := poll_reviewing
  cases hpoll : (reviewing.executeRun {} "run" ⟨0⟩ none).poll office with
  | waiting p e | aborted message e =>
    rw [hpoll] at hends
    cases hends
  | done r e =>
    rw [hpoll] at hends
    cases r with
    | error fault => cases hends
    | ok run =>
      obtain ⟨failure, hfailure, hname⟩ : ∃ failure, run.failure = some failure ∧
          failure.stepName = "checks" := by
        obtain ⟨failure, hf, hname⟩ := Option.map_eq_some_iff.1 (beq_iff_eq.1 hends)
        exact ⟨failure, hf, hname⟩
      have h : Evolves (Company "run" ⟨0⟩) (reviewing.executeRun {} "run" ⟨0⟩ none) office
          (.done (.ok run)) e := evolves_of_poll_done hpoll
      obtain ⟨t, fault, final, -, -, hstatus, hexplained⟩ :=
        (failures_explained hvalid hmild).2 reviewing _ _ _ _ _ _ run rfl h
      exact ⟨hvalid, hmild, run, e, failure, t, fault, h, hstatus.2 (by simp [hfailure]),
        hfailure, hname, (hexplained failure hfailure).2⟩

end Workflow

end WorkflowEngine
