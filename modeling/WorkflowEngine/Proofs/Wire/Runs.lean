import WorkflowEngine.Proofs.Time.Texts
import WorkflowEngine.Proofs.Wire.Steps
import WorkflowEngine.Wire.Run

/-!
# Runs, reports and session records read back
-/

namespace WorkflowEngine

open Wire

theorem Instant.undoes : Undoes decode? encode Valid where
  reads t h := by simpa [decode?, encode] using ofText?_text h
  gives {j t} _ h := by
    obtain ⟨s, _, hs⟩ := Option.bind_eq_some_iff.1 h
    exact valid_of_ofText? hs

theorem RunStatus.find?_name (s : RunStatus) :
    RunStatus.all.find? (RunStatus.name · == s.name) = some s := by
  cases s <;> rfl

theorem RunStatus.undoes : Undoes decode? encode fun _ => True :=
  undoes_variant Json.isNull find?_name

/-! ## Reports -/

namespace StepMetrics

/-- Children in the order of their names, numbers that fit in a word, and no payload that is
null. -/
inductive Legible : StepMetrics → Prop
  | intro {m : StepMetrics} (metrics : m.metrics ≠ some .null)
      (sorted : ∀ t ∈ m.children, t.Sorted)
      (children : ∀ t ∈ m.children, ∀ e ∈ t.entries, Legible e.2)
      (duration : ∀ n ∈ m.durationMs, n < Word.unsignedEnd) : Legible m

theorem encodeEntries_eq (entries : List (String × StepMetrics)) :
    encodeEntries entries = entries.map fun e => (e.1, e.2.encode) := by
  induction entries with
  | nil => rfl
  | cons e rest ih => simp [encodeEntries, ih]

theorem encode_eq (m : StepMetrics) :
    m.encode = .obj ([("step_name", .str m.stepName), ("executor_type", m.executorKind.encode),
        ("executor_name", .str m.executorName)]
      ++ field? "metrics" m.metrics ++ field? "parallel_steps"
          (m.children.map fun t => .obj (t.entries.map fun e => (e.1, e.2.encode)))
      ++ field? "duration_ms" (m.durationMs.map natJson)) := by
  obtain ⟨_, _, _, _, children, _⟩ := m
  cases children <;> simp [encode, encodeEntries_eq, field?]

private theorem decodeEntries?_eq (members : Members) :
    decodeEntries? members = members.mapM fun e => do return (e.1, ← decode? e.2) := by
  induction members with
  | nil => rfl
  | cons e rest ih => simp [decodeEntries?, ih, List.mapM_cons, Option.bind_assoc]

private theorem decodeChildren?_eq (j : Json) :
    decodeChildren? j = nullable? (tableOf? decode?) j := by
  cases j with
  | obj members =>
    simp only [decodeChildren?, nullable?, tableOf?, Json.members?, decodeEntries?_eq,
      Option.bind_eq_bind, Option.pure_def, Option.bind_some]
    cases (members.mapM fun e => (decode? e.2).bind fun m => some (e.1, m)) <;> rfl
  | _ => rfl

private theorem childrenMember?_eq (members : Members) :
    childrenMember? members = optional? members "parallel_steps" (tableOf? decode?) := by
  induction members with
  | nil => rfl
  | cons e rest ih =>
    obtain ⟨key, v⟩ := e
    simp only [childrenMember?, optional?, defaulted?_eq, lookup_cons, decodeChildren?_eq] at ih ⊢
    by_cases h : key = "parallel_steps"
    · simp [h]
    · simp [h, Ne.symm h, ih]

private theorem childrenItem?_eq (place : Nat) (items : List Json) :
    childrenItem? place items = (items[place]?).elim (some none) decodeChildren? := by
  induction items generalizing place with
  | nil => simp [childrenItem?]
  | cons v rest ih => cases place <;> simp [childrenItem?, ih]

/-- Reading a report, with the children read like any other field. -/
theorem decode?_eq (j : Json) :
    decode? j = (members? .stepMetrics j).bind fun ms =>
      (optional? ms "parallel_steps" (tableOf? decode?)).bind (ofMembers? ms) := by
  cases j with
  | obj members => simp [decode?, members?, childrenMember?_eq]
  | arr items =>
    have hplace : (Json.Record.fieldNames .stepMetrics)[4]? = some "parallel_steps" := rfl
    have hfirst : "parallel_steps" ∉ (Json.Record.fieldNames .stepMetrics).take 4 := by decide
    have hchildren : childrenItem? 4 items = optional? ((Json.Record.fieldNames .stepMetrics).zip items)
        "parallel_steps" (tableOf? decode?) := by
      simp only [childrenItem?_eq, optional?, defaulted?_eq, lookup_zip items hplace hfirst,
        funext decodeChildren?_eq]
    simp only [decode?, hchildren, members?, Option.bind_eq_bind]
    split <;> rfl
  | _ => simp [decode?, members?]

theorem decode?_encode {m : StepMetrics} (h : m.Legible) : decode? m.encode = some m := by
  induction h with
  | @intro m metrics sorted children duration ih =>
    have hchildren := elim_table sorted ih
    rw [encode_eq, decode?_eq]
    simp [members?, ofMembers?, optional?, required?, defaulted?_eq, hchildren,
      ExecutorKind.undoes.reads, undoes_optionalWord.elim duration, elim_any metrics]
    cases m
    rfl

private theorem legible_of_ofMembers? {ms : Members} {children : Option (KeyMap StepMetrics)}
    {m : StepMetrics} (hms : RangedMembers ms) (h : ofMembers? ms children = some m)
    (hsorted : ∀ t ∈ children, t.Sorted)
    (hchildren : ∀ t ∈ children, ∀ e ∈ t.entries, e.2.Legible) : m.Legible := by
  simp only [ofMembers?, Option.bind_eq_bind, Option.bind_eq_some_iff, Option.pure_def,
    Option.some.injEq] at h
  obtain ⟨_, _, _, _, _, _, metrics, hmetrics, duration, hduration, rfl⟩ := h
  exact .intro (undoes_any.of_optional hms nofun hmetrics) hsorted hchildren
    (undoes_optionalWord.of_optional hms (by simp) hduration)

theorem undoes : Undoes decode? encode Legible :=
  ⟨fun _ => decode?_encode, gives_of_children decode?_eq legible_of_ofMembers?⟩

end StepMetrics

structure WorkflowMetrics.Legible (m : WorkflowMetrics) : Prop where
  totalSteps : m.totalSteps < Word.unsignedEnd
  steps : m.steps.Sorted ∧ ∀ e ∈ m.steps.entries, e.2.Legible

namespace WorkflowMetrics

theorem legible_empty : ({} : WorkflowMetrics).Legible :=
  ⟨by decide, KeyMap.sorted_empty, nofun⟩

theorem undoes : Undoes decode? encode Legible where
  reads m h := by
    have hsteps := StepMetrics.undoes.tableOf.reads _ h.steps
    simp [decode?, encode, members?, required?, defaulted?_eq, StepMetrics.encodeEntries_eq,
      undoes_word.reads _ h.totalSteps, hsteps]
  gives {j m} hj h := by
    simp only [decode?, Option.bind_eq_bind, Option.bind_eq_some_iff, Option.pure_def,
      Option.some.injEq] at h
    obtain ⟨ms, hms, total, htotal, steps, hsteps, rfl⟩ := h
    have hranged := ranged_of_members? hj hms
    exact ⟨undoes_word.of_required hranged htotal,
      StepMetrics.undoes.tableOf.of_defaulted hranged ⟨KeyMap.sorted_empty, fun _ h => by cases h⟩ hsteps⟩

end WorkflowMetrics

/-! ## Runs -/

namespace RunFailure

theorem undoes : Undoes decode? encode fun _ => True where
  reads f _ := by
    simp [decode?, encode, members?, required?]
  gives _ _ := trivial

/-- A failure or null. -/
theorem undoes_option :
    Undoes (nullable? decode?) (fun o => nullOr (o.map encode)) fun o => ∀ f ∈ o, True :=
  undoes.nullable fun _ _ => nofun

end RunFailure

structure WorkflowRun.Legible (r : WorkflowRun) : Prop where
  content : ∀ c ∈ r.content, c.Legible
  stepResponses : ∀ o ∈ r.stepResponses, o.Legible
  metrics : r.metrics.Legible
  createdAt : r.createdAt.Valid

theorem WorkflowRun.undoes : Undoes decode? encode Legible where
  reads r h := by
    have hresponses := StepOutput.undoes.listOf.reads _ h.stepResponses
    have hfailure := RunFailure.undoes_option.reads r.failure fun _ _ => trivial
    simp [decode?, encode, members?, required?, optional?, defaulted?_eq, hresponses, hfailure,
      RunStatus.undoes.reads, Content.undoes_option.reads _ h.content,
      WorkflowMetrics.undoes.reads _ h.metrics, MediaSet.undoes.reads,
      Instant.undoes.reads _ h.createdAt]
  gives {j r} hj h := by
    simp only [decode?, Option.bind_eq_bind, Option.bind_eq_some_iff, Option.pure_def,
      Option.some.injEq] at h
    obtain ⟨ms, hms, _, _, _, _, _, _, _, _, _, _, content, hcontent, responses, hresponses, metrics,
      hmetrics, _, _, _, _, created, hcreated, rfl⟩ := h
    have hranged := ranged_of_members? hj hms
    exact {
      content := Content.undoes_option.of_optional hranged (by simp) hcontent
      stepResponses := StepOutput.undoes.listOf.of_defaulted hranged (by simp) hresponses
      metrics := WorkflowMetrics.undoes.of_defaulted hranged WorkflowMetrics.legible_empty hmetrics
      createdAt := Instant.undoes.of_required hranged hcreated }

/-! ## Session records -/

theorem SessionState.undoes : Undoes ofJson? toJson fun _ => True where
  reads s _ := by
    obtain ⟨map, sorted⟩ := s
    simp [ofJson?, toJson, Json.ofMap, Json.members?, ofList, sorted.ofList_entries]
  gives _ _ := trivial

structure SessionRecord.Legible (r : SessionRecord) : Prop where
  runs : ∀ run ∈ r.runs, run.Legible
  createdAt : r.createdAt.Valid
  updatedAt : r.updatedAt.Valid

theorem SessionRecord.undoes : Undoes decode? encode Legible where
  reads r h := by
    have hruns := WorkflowRun.undoes.listOf.reads _ h.runs
    simp [decode?, encode, members?, required?, optional?, defaulted?_eq, hruns,
      SessionState.undoes.reads, Instant.undoes.reads _ h.createdAt,
      Instant.undoes.reads _ h.updatedAt]
  gives {j r} hj h := by
    simp only [decode?, Option.bind_eq_bind, Option.bind_eq_some_iff, Option.pure_def,
      Option.some.injEq] at h
    obtain ⟨ms, hms, _, _, _, _, _, _, _, _, _, _, runs, hruns, created, hcreated, updated, hupdated,
      rfl⟩ := h
    have hranged := ranged_of_members? hj hms
    exact {
      runs := WorkflowRun.undoes.listOf.of_defaulted hranged (by simp) hruns
      createdAt := Instant.undoes.of_required hranged hcreated
      updatedAt := Instant.undoes.of_required hranged hupdated }

end WorkflowEngine
