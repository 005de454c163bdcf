import WorkflowEngine.Proofs.Node.Order
import WorkflowEngine.Proofs.Workflow.Tours

/-!
# Outcomes of tours

What a tour makes of its run: its status, its failure, its outputs and its media.
-/

namespace WorkflowEngine

namespace WorkflowRun

@[simp] theorem status_note (run : WorkflowRun) (o : StepOutput) :
    (run.note o).status = if o.success then run.status else .error := by
  unfold note
  dsimp only
  split <;> rfl

@[simp] theorem media_note (run : WorkflowRun) (o : StepOutput) :
    (run.note o).media = run.media ++ o.media := by
  unfold note
  dsimp only
  split <;> rfl

@[simp] theorem stepResponses_note (run : WorkflowRun) (o : StepOutput) :
    (run.note o).stepResponses = run.stepResponses ++ [o] := by
  unfold note
  dsimp only
  split <;> rfl

theorem failure_note {o : StepOutput} (run : WorkflowRun) (h : o.success = true) :
    (run.note o).failure = run.failure := by
  unfold note
  dsimp only
  rw [if_pos h]

@[simp] theorem media_conclude (run : WorkflowRun) (fault : Option Fault) :
    (run.conclude fault).media = run.media := by
  unfold conclude
  dsimp only
  split
  · split <;> rfl
  · rfl
  · rfl

@[simp] theorem stepResponses_conclude (run : WorkflowRun) (fault : Option Fault) :
    (run.conclude fault).stepResponses = run.stepResponses := by
  unfold conclude
  dsimp only
  split
  · split <;> rfl
  · rfl
  · rfl

theorem status_conclude_none {run : WorkflowRun} (h : run.status = .running ∨ run.status = .error) :
    (run.conclude none).status = if run.status = .running then .completed else .error := by
  unfold conclude
  rcases h with h | h <;> simp [h]

/-- Only a run without a fault is completed. -/
theorem fault_of_completed {run : WorkflowRun} {fault : Option Fault}
    (h : (run.conclude fault).status = .completed) : fault = none := by
  unfold conclude at h
  dsimp only at h
  split at h
  · rfl
  · cases h
  · cases h

end WorkflowRun

/-- A run goes on running without a failure until a node fails, and then no fault follows. -/
theorem status_of_tour {nodes : List Node} {input : StepInput} {run : WorkflowRun}
    {t : List Happening} {r : Option Toured} (h : Tour nodes input run t r)
    (hs : run.status = .running) (hf : run.failure = none) {run' : WorkflowRun}
    {fault : Option Fault} {courses : List Course} (hr : r = some ((run', fault), courses)) :
    run'.status = .running ∧ run'.failure = none ∨ run'.status = .error ∧ fault = none := by
  induction h generalizing courses with
  | finished ho =>
    cases ho _ hr
    exact .inl ⟨hs, hf⟩
  | under h => cases hr
  | fault h =>
    cases hr
    exact .inl ⟨hs, hf⟩
  | @halted n rest input run t o c h ho =>
    cases hr
    cases hsucc : o.success with
    | true => exact .inl ⟨by simp [hsucc, hs], (run.failure_note hsucc).trans hf⟩
    | false => exact .inr ⟨by simp [hsucc], rfl⟩
  | @next n rest input run t u o c r h ho hrest ih =>
    have hsucc := StepOutput.success_of_halts ho
    obtain ⟨⟨out, courses'⟩, rfl, hout⟩ := Option.map_eq_some_iff.1 hr
    cases hout
    exact ih (by simp [hsucc, hs]) ((run.failure_note hsucc).trans hf) rfl

/-- A run that is concluded as cancelled was ended by a cancellation, before any node failed. -/
theorem cancelled_of_conclude {run : WorkflowRun} {fault : Option Fault}
    (h : run.status = .running ∧ run.failure = none ∨ run.status = .error ∧ fault = none)
    (hc : (run.conclude fault).status = .cancelled) :
    fault = some .cancelled ∧ (run.conclude fault).failure = none := by
  unfold WorkflowRun.conclude at hc ⊢
  dsimp only at hc ⊢
  split at hc
  · rcases h with ⟨hs, -⟩ | ⟨hs, -⟩ <;> simp [hs] at hc
  · rcases h with ⟨-, hf⟩ | ⟨-, hf⟩
    · exact ⟨rfl, hf⟩
    · cases hf
  · cases hc

end WorkflowEngine
