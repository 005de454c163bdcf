import WorkflowEngine.Proofs.Wire.Runs
import WorkflowEngine.Wire.Config
import WorkflowEngine.Wire.Event

/-!
# The wire formats

Events and configurations read back, and with them every type that is written as a document. The fields of
an event share one object with the word for its kind, and a reader wants each of them once.
-/

namespace WorkflowEngine

open Wire

/-! ## Events -/

namespace EventKind

@[simp] theorem filter_cons (key key' : String) (v : Json) (ms : Members) :
    List.filter (fun e : String × Json => e.1 == key) ((key', v) :: ms) =
      if key' = key then (key', v) :: ms.filter (·.1 == key) else ms.filter (·.1 == key) := by
  by_cases h : key' = key <;> simp [h, beq_eq_false_iff_ne.2]

section Fields

variable {read : Json → Option α} {write : α → Json} {P : α → Prop} {ms : Members} {key : String}

private theorem ranged_of_filter (hms : RangedMembers ms) {e : String × Json}
    (h : ms.filter (·.1 == key) = [e]) : e.2.InRange :=
  hms e (List.mem_filter.1 (h ▸ List.mem_singleton_self e)).1

theorem of_once (h : Undoes read write P) (hms : RangedMembers ms) {a : α}
    (hread : once? ms key read = some a) : P a := by
  unfold once? at hread
  split at hread
  · exact h.gives (ranged_of_filter hms ‹_›) hread
  · cases hread

theorem of_atMostOnce {Q : Option α → Prop} {write : Option α → Json}
    (h : Undoes (nullable? read) write Q) (hms : RangedMembers ms) (hnone : Q none) {o : Option α}
    (hread : atMostOnce? ms key read = some o) : Q o := by
  unfold atMostOnce? at hread
  split at hread
  · cases hread
    exact hnone
  · exact h.gives (ranged_of_filter hms ‹_›) hread
  · cases hread

end Fields

/-- Content that can be written, and counts that fit in a word. -/
def Legible : EventKind → Prop
  | runCompleted content _ | stepCompleted _ _ content _ => ∀ c ∈ content, c.Legible
  | stepContentDelta _ delta => delta.Legible
  | loopIterationStarted _ iteration maxIterations =>
    iteration < Word.unsignedEnd ∧ maxIterations < Word.unsignedEnd
  | loopIterationCompleted _ iteration _ => iteration < Word.unsignedEnd
  | _ => True

theorem undoes_status :
    Undoes (RunStatus.decodeWith? isUnit) RunStatus.encode fun _ => True :=
  undoes_variant isUnit RunStatus.find?_name

theorem undoes_kind :
    Undoes (ExecutorKind.decodeWith? isUnit) ExecutorKind.encode fun _ => True :=
  undoes_variant isUnit ExecutorKind.find?_name

/-- A kind reads back from among the fields that all events have. -/
theorem decode?_encode {k : EventKind} (h : k.Legible) (runId sessionId timestamp : Json) :
    decode? ([("run_id", runId), ("session_id", sessionId), ("timestamp", timestamp)] ++ k.encode) =
      some k := by
  cases k with
  | runStarted | runCancelled | runError | parallelCompleted | conditionEvaluated
  | routerSelected => simp [decode?, encode, once?, atMostOnce?, tag?]
  | runCompleted content status =>
    simp [decode?, encode, once?, atMostOnce?, tag?, Content.undoes_option.reads _ h,
      undoes_status.reads]
  | stepStarted stepName kind =>
    simp [decode?, encode, once?, tag?, undoes_kind.reads]
  | stepContentDelta stepName delta =>
    simp [decode?, encode, once?, tag?, Content.undoes.reads _ h]
  | stepCompleted stepName success content error =>
    simp [decode?, encode, once?, atMostOnce?, tag?, Content.undoes_option.reads _ h]
  | loopIterationStarted stepName iteration maxIterations =>
    simp [decode?, encode, once?, tag?, undoes_word.reads _ h.1, undoes_word.reads _ h.2]
  | loopIterationCompleted stepName iteration shouldContinue =>
    have hword : iteration < Word.unsignedEnd := h
    simp [decode?, encode, once?, tag?, undoes_word.reads _ hword]
  | parallelStarted stepName children =>
    have hchildren := undoes_text.listOf.reads children fun _ _ => trivial
    simp [decode?, encode, once?, tag?, hchildren]

theorem legible_of_decode? {ms : Members} {k : EventKind} (hms : RangedMembers ms)
    (h : decode? ms = some k) : k.Legible := by
  simp only [decode?, Option.bind_eq_bind, Option.bind_eq_some_iff] at h
  obtain ⟨tag, _, h⟩ := h
  split at h
  all_goals
    simp only [Option.bind_eq_some_iff, Option.pure_def, Option.some.injEq, reduceCtorEq] at h
  case h_1 => obtain ⟨_, _, rfl⟩ := h; trivial
  case h_2 =>
    obtain ⟨content, hcontent, _, _, rfl⟩ := h
    exact of_atMostOnce Content.undoes_option hms (by simp) hcontent
  case h_3 => subst h; trivial
  case h_4 | h_5 | h_10 | h_11 | h_12 | h_13 => obtain ⟨_, _, _, _, rfl⟩ := h; trivial
  case h_6 =>
    obtain ⟨_, _, delta, hdelta, rfl⟩ := h
    exact of_once Content.undoes hms hdelta
  case h_7 =>
    obtain ⟨_, _, _, _, content, hcontent, _, _, rfl⟩ := h
    exact of_atMostOnce Content.undoes_option hms (by simp) hcontent
  case h_8 =>
    obtain ⟨_, _, iteration, hiteration, cap, hcap, rfl⟩ := h
    exact ⟨of_once undoes_word hms hiteration, of_once undoes_word hms hcap⟩
  case h_9 =>
    obtain ⟨_, _, iteration, hiteration, _, _, rfl⟩ := h
    exact of_once undoes_word hms hiteration

end EventKind

namespace WorkflowEvent

structure Legible (e : WorkflowEvent) : Prop where
  timestamp : e.timestamp.Valid
  kind : e.kind.Legible

/-- No kind has a field of the name of one that all events have. -/
private theorem filter_kind (k : EventKind) {key : String}
    (h : key = "run_id" ∨ key = "session_id" ∨ key = "timestamp") :
    k.encode.filter (·.1 == key) = [] := by
  rcases h with rfl | rfl | rfl <;> cases k <;> rfl

theorem undoes : Undoes decode? encode Legible where
  reads e h := by
    obtain ⟨runId, sessionId, timestamp, kind⟩ := e
    have hkind := EventKind.decode?_encode h.kind (.str runId) (.str sessionId) timestamp.encode
    have hstamp := Instant.undoes.reads timestamp h.timestamp
    simp only [decode?, encode, Json.members?]
    generalize timestamp.encode = stamp at hkind hstamp
    simp only [List.cons_append, List.nil_append] at hkind ⊢
    simp [EventKind.once?, filter_kind, hkind, hstamp]
  gives {j e} hj h := by
    simp only [decode?, Option.bind_eq_bind, Option.bind_eq_some_iff, Option.pure_def,
      Option.some.injEq] at h
    obtain ⟨ms, hms, _, _, _, _, timestamp, htimestamp, kind, hkind, rfl⟩ := h
    have hranged : RangedMembers ms := by
      cases hj <;> cases hms
      assumption
    exact ⟨EventKind.of_once Instant.undoes hranged htimestamp,
      EventKind.legible_of_decode? hranged hkind⟩

end WorkflowEvent

/-! ## Configurations -/

namespace WorkflowSection

def Legible (s : WorkflowSection) : Prop := s.eventBuffer < Word.unsignedEnd

theorem legible_default : ({} : WorkflowSection).Legible := by
  simp [Legible, Word.unsignedEnd]

theorem undoes : Undoes decode? encode Legible where
  reads s h := by
    simp [decode?, encode, members?, optional?, defaulted?_eq, undoes_word.reads _ h]
  gives {j s} hj h := by
    simp only [decode?, Option.bind_eq_bind, Option.bind_eq_some_iff, Option.pure_def,
      Option.some.injEq] at h
    obtain ⟨ms, hms, _, _, buffer, hbuffer, rfl⟩ := h
    exact undoes_word.of_defaulted (ranged_of_members? hj hms) (by decide) hbuffer

end WorkflowSection

structure StepSection.Legible (s : StepSection) : Prop where
  maxRetries : s.maxRetries < 0x100000000
  timeoutSecs : ∀ n ∈ s.timeoutSecs, n < Word.unsignedEnd

theorem StepSection.undoes : Undoes decode? encode Legible where
  reads s h := by
    simp [decode?, encode, members?, optional?, defaulted?_eq,
      (undoes_natBelow _).reads _ h.maxRetries, undoes_optionalWord.reads _ h.timeoutSecs]
  gives {j s} hj h := by
    simp only [decode?, Option.bind_eq_bind, Option.bind_eq_some_iff, Option.pure_def,
      Option.some.injEq] at h
    obtain ⟨ms, hms, retries, hretries, timeout, htimeout, rfl⟩ := h
    have hranged := ranged_of_members? hj hms
    exact ⟨(undoes_natBelow _).of_defaulted hranged (by decide) hretries,
      undoes_optionalWord.of_optional hranged (by simp) htimeout⟩

theorem StorageSection.undoes (bare : Json → Bool) :
    Undoes (decode? bare) encode fun _ => True where
  reads s _ := by
    have hbackend : StorageBackend.all.find? (StorageBackend.name · == s.backend.name) =
        some s.backend := by
      cases s.backend <;> rfl
    simp [decode?, encode, members?, defaulted?_eq, variant?, hbackend]
  gives _ _ := trivial

theorem LogSection.undoes : Undoes decode? encode fun _ => True where
  reads s _ := by
    simp [decode?, encode, members?, defaulted?_eq]
  gives _ _ := trivial

structure EngineConfig.Legible (c : EngineConfig) : Prop where
  workflow : c.workflow.Legible
  step : c.step.Legible

theorem EngineConfig.undoes : Undoes decode? encode Legible where
  reads c h := by
    simp [decode?, decodeWith?, encode, members?, defaulted?_eq,
      WorkflowSection.undoes.reads _ h.workflow, StepSection.undoes.reads _ h.step,
      (StorageSection.undoes _).reads, LogSection.undoes.reads]
  gives {j c} hj h := by
    simp only [decode?, decodeWith?, Option.bind_eq_bind, Option.bind_eq_some_iff, Option.pure_def,
      Option.some.injEq] at h
    obtain ⟨ms, hms, workflow, hworkflow, step, hstep, _, _, _, _, rfl⟩ := h
    have hranged := ranged_of_members? hj hms
    exact ⟨WorkflowSection.undoes.of_defaulted hranged WorkflowSection.legible_default hworkflow,
      StepSection.undoes.of_defaulted hranged ⟨by decide, by simp⟩ hstep⟩

/-! ## All formats -/

/-- A format carries the values with `P`: they read back, no other value is ever read, and so what
was read once is read again from what it is written as. -/
structure Wire.Carries (read : Json → Option α) (write : α → Json) (P : α → Prop) : Prop
    extends Undoes read write P where
  again : ∀ {j a}, j.InRange → read j = some a → read (write a) = some a

theorem Wire.Undoes.carries {read : Json → Option α} {write : α → Json} {P : α → Prop}
    (h : Undoes read write P) : Carries read write P :=
  { h with again := fun hj hread => h.again hj hread }

/-- Every format carries the values whose content is finite and whose payloads are not null, within
what their types hold anyway: keys in order, numbers that fit in a word, instants there are. -/
theorem Wire.formats_carry :
    Carries Content.decode? Content.toJson Content.Legible ∧
    Carries MediaSet.decode? MediaSet.encode (fun _ => True) ∧
    Carries StepInput.decode? StepInput.encode StepInput.Legible ∧
    Carries StepOutput.decode? StepOutput.encode StepOutput.Legible ∧
    Carries ExecutionInput.decode? ExecutionInput.encode ExecutionInput.Legible ∧
    Carries StepMetrics.decode? StepMetrics.encode StepMetrics.Legible ∧
    Carries WorkflowMetrics.decode? WorkflowMetrics.encode WorkflowMetrics.Legible ∧
    Carries WorkflowRun.decode? WorkflowRun.encode WorkflowRun.Legible ∧
    Carries SessionRecord.decode? SessionRecord.encode SessionRecord.Legible ∧
    Carries WorkflowEvent.decode? WorkflowEvent.encode WorkflowEvent.Legible ∧
    Carries EngineConfig.decode? EngineConfig.encode EngineConfig.Legible :=
  ⟨Content.undoes.carries, MediaSet.undoes.carries, StepInput.undoes.carries,
    StepOutput.undoes.carries, ExecutionInput.undoes.carries, StepMetrics.undoes.carries,
    WorkflowMetrics.undoes.carries, WorkflowRun.undoes.carries, SessionRecord.undoes.carries,
    WorkflowEvent.undoes.carries, EngineConfig.undoes.carries⟩

/-- An output written as the list of its fields, with a child of which only the content is given. -/
def Wire.listedOutput : Json :=
  .arr [.str "both", .null, .str "parallel", .str "both", .null,
    .obj [("left", .obj [("content", .int 2), ("response", .null)])]]

/-- What the list stands for. -/
def Wire.bothOutput : StepOutput :=
  { stepName := "both", executorKind := .parallel, executorName := "both"
    children := some ⟨[("left", { content := some (.number (Binary64.ofInt 2)) })]⟩ }

theorem Wire.formats_carry_outputs :
    listedOutput.InRange ∧ StepOutput.decode? listedOutput = some bothOutput ∧
      StepOutput.decode? bothOutput.encode = some bothOutput := by
  have hrange : listedOutput.InRange := by
    have htwo : Json.InRange (.int 2) := .int (by decide) (by decide)
    simp [listedOutput, Json.InRange.null, Json.InRange.str, htwo]
  have hread : StepOutput.decode? listedOutput = some bothOutput := rfl
  exact ⟨hrange, hread, formats_carry.2.2.2.1.again hrange hread⟩

end WorkflowEngine
