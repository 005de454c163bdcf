import WorkflowEngine.Node.Iteration
import WorkflowEngine.Node.Join
import WorkflowEngine.Run.Basic

/-!
# Outputs without durations

Outputs, inputs and runs as they are apart from how long everything took. Main statement: nothing that the
nodes put together of outputs depends on durations.
-/

namespace WorkflowEngine

namespace KeyMap

variable {α β : Type}

/-- Changes every value of a map. -/
def mapValues (f : α → β) (m : KeyMap α) : KeyMap β := ⟨m.entries.map fun e => (e.1, f e.2)⟩

private theorem map_insertEntry (f : α → β) (key : String) (value : α) (l : List (String × α)) :
    (insertEntry key value l).map (fun e => (e.1, f e.2)) =
      insertEntry key (f value) (l.map fun e => (e.1, f e.2)) := by
  induction l with
  | nil => rfl
  | cons e rest ih =>
    obtain ⟨k, v⟩ := e
    simp only [insertEntry, List.map_cons]
    split
    · rfl
    · split
      · rfl
      · rw [List.map_cons, ih]

theorem mapValues_insert (f : α → β) (m : KeyMap α) (key : String) (value : α) :
    (m.insert key value).mapValues f = (m.mapValues f).insert key (f value) :=
  congrArg KeyMap.mk (map_insertEntry f key value m.entries)

theorem mapValues_ofList (f : α → β) (l : List (String × α)) :
    (ofList l).mapValues f = ofList (l.map fun e => (e.1, f e.2)) := by
  unfold ofList insertMany
  have hfold (m : KeyMap α) : (l.foldl (fun m e => m.insert e.1 e.2) m).mapValues f =
      (l.map fun e => (e.1, f e.2)).foldl (fun m e => m.insert e.1 e.2) (m.mapValues f) := by
    induction l generalizing m with
    | nil => rfl
    | cons e rest ih => rw [List.foldl_cons, ih, mapValues_insert, List.map_cons, List.foldl_cons]
  exact hfold ∅

theorem get?_mapValues (f : α → β) (m : KeyMap α) (key : String) :
    (m.mapValues f).get? key = (m.get? key).map f := by
  obtain ⟨l⟩ := m
  simp only [get?, mapValues]
  induction l with
  | nil => rfl
  | cons e rest ih =>
    obtain ⟨k, v⟩ := e
    rw [List.map_cons, List.lookup_cons, List.lookup_cons, ih]
    cases key == k <;> rfl

theorem values_mapValues (f : α → β) (m : KeyMap α) : (m.mapValues f).values = m.values.map f := by
  simp [values, mapValues, Function.comp_def]

end KeyMap

namespace StepOutput

mutual

/-- An output and everything within it without durations. -/
def untimed : StepOutput → StepOutput
  | ⟨stepName, stepId, kind, executorName, content, children, response, media, metrics, _, success,
      error, stop, termination⟩ =>
    ⟨stepName, stepId, kind, executorName, content,
      match children with
      | none => none
      | some ⟨entries⟩ => some ⟨untimedEntries entries⟩,
      response, media, metrics, none, success, error, stop, termination⟩

def untimedEntries : List (String × StepOutput) → List (String × StepOutput)
  | [] => []
  | (name, o) :: rest => (name, o.untimed) :: untimedEntries rest

end

theorem untimedEntries_eq_map (l : List (String × StepOutput)) :
    untimedEntries l = l.map fun e => (e.1, e.2.untimed) := by
  induction l with
  | nil => simp [untimedEntries]
  | cons e rest ih => simp [untimedEntries, ih]

/-- An output without durations has the same fields apart from those of its children. -/
theorem untimed_eq (o : StepOutput) : o.untimed =
    { o with children := o.children.map (·.mapValues untimed), durationMs := none } := by
  obtain ⟨_, _, _, _, _, children, _, _, _, _, _, _, _, _⟩ := o
  cases children with
  | none => simp [untimed]
  | some m => simp [untimed, untimedEntries_eq_map, KeyMap.mapValues]

variable (o : StepOutput)

@[simp] theorem untimed_stepName : o.untimed.stepName = o.stepName := by rw [untimed_eq]

@[simp] theorem untimed_content : o.untimed.content = o.content := by rw [untimed_eq]

@[simp] theorem untimed_media : o.untimed.media = o.media := by rw [untimed_eq]

@[simp] theorem untimed_success : o.untimed.success = o.success := by rw [untimed_eq]

@[simp] theorem untimed_error : o.untimed.error = o.error := by rw [untimed_eq]

@[simp] theorem untimed_stop : o.untimed.stop = o.stop := by rw [untimed_eq]

@[simp] theorem untimed_halts : o.untimed.halts = o.halts := by simp [halts]

theorem untimed_durationMs (ms : Option Nat) : { o with durationMs := ms }.untimed = o.untimed := by
  rw [untimed_eq, untimed_eq o]

end StepOutput

namespace StepInput

def untimed (i : StepInput) : StepInput :=
  { i with previousOutputs := i.previousOutputs.mapValues StepOutput.untimed }

theorem untimed_chain (i : StepInput) (name : String) (o : StepOutput) :
    (i.chain name o).untimed = i.untimed.chain name o.untimed := by
  simp [untimed, chain, KeyMap.mapValues_insert]

theorem untimed_toStepInput (i : ExecutionInput) : i.toStepInput.untimed = i.toStepInput := rfl

end StepInput

/-! ## What nodes put together -/

namespace Node

theorem untimed_passthrough (name : String) (kind : ExecutorKind) (input : StepInput) :
    (passthrough name kind input).untimed = passthrough name kind input.untimed := by
  rw [StepOutput.untimed_eq]
  rfl

end Node

theorem Step.untimed_stamp (s : Step) (o : StepOutput) (ms ms' : Nat) :
    (s.stamp o ms).untimed = (s.stamp o ms').untimed := by
  rw [StepOutput.untimed_eq, StepOutput.untimed_eq]
  rfl

namespace Sequence

def untimed : Sequence → Sequence
  | completed output next produced => completed output.untimed next.untimed produced
  | halted output => halted output.untimed
  | empty input => empty input.untimed

theorem untimed_after (first : StepOutput) (q : Sequence) :
    (q.after first).untimed = q.untimed.after first.untimed := by
  cases q <;> simp [after, untimed]

theorem untimed_grouped (name : String) (kind : ExecutorKind) (q : Sequence) :
    (q.grouped name kind).untimed = q.untimed.grouped name kind := by
  cases q with
  | completed output next produced =>
    simp only [grouped, untimed]
    rw [StepOutput.untimed_eq, StepOutput.untimed_eq output]
  | halted output => rfl
  | empty input => exact Node.untimed_passthrough name kind input

end Sequence

def LoopResult.untimed (l : LoopResult) : LoopResult :=
  ⟨l.output.untimed, l.iterations.map StepOutput.untimed, l.termination⟩

theorem Loop.untimed_finish (name : String) (output : StepOutput) (iterations : List StepOutput)
    (state : LoopState) : (finish name output iterations state).untimed =
      finish name output.untimed (iterations.map StepOutput.untimed) state := by
  simp only [finish, LoopResult.untimed, List.length_map]
  split
  · rw [StepOutput.untimed_eq, StepOutput.untimed_eq output]
  · rw [StepOutput.untimed_eq, StepOutput.untimed_eq output]

namespace Join

variable (results : List (Except Fault StepOutput))

private theorem fault?_untimed :
    fault? (results.map (Except.map StepOutput.untimed)) = fault? results := by
  have hany (l : List (Except Fault StepOutput)) :
      (l.map (Except.map StepOutput.untimed)).any fault?.isCancelled =
        l.any fault?.isCancelled := by
    rw [List.any_map]
    congr 1
    funext q
    rcases q with fault | o
    · cases fault <;> rfl
    · rfl
  induction results with
  | nil => rfl
  | cons q rest ih =>
    cases q with
    | ok o => exact ih
    | error fault => simp only [List.map_cons, Except.map, fault?, hany]

private theorem outputs_untimed (names : List String) :
    outputs names (results.map (Except.map StepOutput.untimed)) =
      (outputs names results).mapValues StepOutput.untimed := by
  rw [outputs, outputs, KeyMap.mapValues_ofList, List.zip_map_right, List.filterMap_map,
    List.map_filterMap]
  congr 2
  funext e
  obtain ⟨name, q⟩ := e
  cases q <;> rfl

private theorem media_untimed (m : KeyMap StepOutput) (names : List String) :
    media (m.mapValues StepOutput.untimed) names = media m names := by
  induction names with
  | nil => rfl
  | cons name rest ih =>
    rw [media, media, KeyMap.get?_mapValues, ih]
    cases m.get? name <;> simp

private theorem failures_untimed (m : KeyMap StepOutput) (names : List String) :
    failures (m.mapValues StepOutput.untimed) names = failures m names := by
  unfold failures
  congr 1
  funext name
  rw [KeyMap.get?_mapValues]
  cases m.get? name <;> simp

private theorem output_untimed (name : String) (names : List String) (m : KeyMap StepOutput) :
    (output name names m).untimed = output name names (m.mapValues StepOutput.untimed) := by
  rw [StepOutput.untimed_eq]
  simp [output, media_untimed, failures_untimed, KeyMap.values_mapValues, Function.comp_def]

/-- Joining does not depend on durations. -/
theorem result_untimed (name : String) (names : List String) :
    (result name names results).map StepOutput.untimed =
      result name names (results.map (Except.map StepOutput.untimed)) := by
  unfold result
  rw [fault?_untimed, outputs_untimed]
  cases fault? results with
  | some fault => rfl
  | none => exact congrArg Except.ok (output_untimed name names _)

end Join

end WorkflowEngine
