import Mathlib.Data.Option.Basic
import WorkflowEngine.Proofs.Json.Documents
import WorkflowEngine.Proofs.Wire.Runs

/-!
# Runs as documents

A run whose payloads are plain values is written as a document of the shape that a reader of runs
expects, so that it is read back from its text.
-/

namespace WorkflowEngine

open Wire Json

/-! ## Fields -/

namespace Wire

theorem keys_field? (key : String) (v : Option Json) :
    ((field? key v).map (·.1)).Sublist [key] := by
  cases v
  · exact List.nil_sublist _
  · exact List.Sublist.refl _

@[simp] theorem forall_mem_field? {key : String} {v : Option Json} {P : String × Json → Prop} :
    (∀ e ∈ field? key v, P e) ↔ ∀ j ∈ v, P (key, j) := by
  cases v <;> simp [field?]

theorem suits_natJson {s : Shape} (hs : s.counts = true) {n : Nat} (h : n < Word.unsignedEnd) :
    Suits s (natJson n) := by
  refine .int hs (.int ?_ (by exact_mod_cast h))
  simp only [Word.signedEnd]
  omega

/-- A list suits a reader of lists of a shape when its items suit one of the shape. -/
theorem suits_list {s : Shape} {items : List Json} (h : ∀ v ∈ items, Suits s v) :
    Suits (.list s) (.arr items) :=
  .arr rfl fun _ v hv => h v (List.mem_of_getElem? hv)

/-- A table suits a reader of tables of a shape when its entries suit one of the shape. -/
theorem suits_table {s : Shape} {members : Members} (h : ∀ e ∈ members, Suits s e.2) :
    Suits (.table s) (.obj members) :=
  .obj rfl trivial h

theorem suits_entries {s : Shape} {encode : α → Json} {m : KeyMap α}
    (h : ∀ e ∈ m.entries, Suits s (encode e.2)) :
    Suits (.table s) (.obj (m.entries.map fun e => (e.1, encode e.2))) :=
  suits_table fun e he => by
    obtain ⟨e, hmem, rfl⟩ := List.mem_map.1 he
    exact h e hmem

theorem suits_texts (o : Option String) : ∀ j ∈ o.map Json.str, Suits .value j :=
  Option.forall_mem_map.2 fun t _ => .str rfl t

end Wire

/-! ## Step outputs -/

/-- Content that is written as a plain value. -/
def Content.Plain (c : Content) : Prop := Json.Plain c.toJson

theorem Content.suits_encodeOption {c : Option Content} (h : ∀ a ∈ c, a.Plain) :
    Json.Plain (encodeOption c) := by
  cases c with
  | none => exact .null rfl
  | some c => exact h c rfl

/-! ## Media -/

theorem MediaArtifact.suits (a : MediaArtifact) : Suits (.record .mediaArtifact) a.encode := by
  refine .obj rfl ?_ ?_
  · simp only [Shape.Keeps, List.map_append]
    exact (((List.Sublist.refl ["id", "kind"]).append (keys_field? "url" _)).append
      (keys_field? "mime_type" _)).append (keys_field? "data_base64" _)
  · simp only [List.forall_mem_append, List.forall_mem_cons, forall_mem_field?]
    simp [Shape.member, Record.fields, Shape.counts, List.lookup_cons]

theorem MediaArtifact.nesting_encode (a : MediaArtifact) : a.encode.nesting ≤ 1 := by
  refine nesting_obj_le.2 ?_
  simp only [List.forall_mem_append, List.forall_mem_cons, forall_mem_field?]
  simp [nesting]

namespace MediaSet

theorem listField_eq (key : String) (l : List MediaArtifact) :
    listField key l = field? key (if l.isEmpty then none else some (.arr (l.map MediaArtifact.encode))) := by
  unfold listField
  split <;> rfl

theorem suits (m : MediaSet) : Suits (.record .mediaSet) m.encode := by
  have hlist (l : List MediaArtifact) :
      ∀ j ∈ (if l.isEmpty then none else some (Json.arr (l.map MediaArtifact.encode))),
        Suits (.list (.record .mediaArtifact)) j := by
    rintro j hj
    split at hj <;> cases hj
    exact suits_list fun v hv => by
      obtain ⟨a, -, rfl⟩ := List.mem_map.1 hv
      exact a.suits
  simp only [encode, listField_eq]
  refine .obj rfl ?_ ?_
  · simp only [Shape.Keeps, List.map_append]
    exact ((keys_field? "images" _).append (keys_field? "videos" _)).append (keys_field? "audio" _)
  · simp only [List.forall_mem_append, forall_mem_field?]
    exact ⟨⟨hlist _, hlist _⟩, hlist _⟩

theorem nesting_encode (m : MediaSet) : m.encode.nesting ≤ 3 := by
  have hlist (l : List MediaArtifact) :
      ∀ j ∈ (if l.isEmpty then none else some (Json.arr (l.map MediaArtifact.encode))),
        j.nesting ≤ 2 := by
    rintro j hj
    split at hj <;> cases hj
    refine nesting_arr_le.2 fun v hv => ?_
    obtain ⟨a, -, rfl⟩ := List.mem_map.1 hv
    exact a.nesting_encode
  simp only [encode, listField_eq]
  refine nesting_obj_le.2 ?_
  simp only [List.forall_mem_append, forall_mem_field?]
  exact ⟨⟨hlist _, hlist _⟩, hlist _⟩

end MediaSet

/-! ## Step outputs -/

theorem LoopTermination.suits {t : LoopTermination} (h : t.Legible) :
    Suits (.record .loopTermination) t.encode := by
  have hcount : Suits .value (natJson t.iterations) := suits_natJson rfl h
  refine .obj rfl (List.Sublist.refl _) ?_
  simp only [List.forall_mem_cons]
  simp [Shape.member, Record.fields, Shape.counts, List.lookup_cons, hcount]

namespace StepOutput

/-- Every payload is a plain value, those of the children too. -/
inductive Plain : StepOutput → Prop
  | intro {o : StepOutput} (content : ∀ c ∈ o.content, c.Plain)
      (children : ∀ m ∈ o.children, ∀ e ∈ m.entries, Plain e.2)
      (response : ∀ j ∈ o.response, j.Plain) (metrics : ∀ j ∈ o.metrics, j.Plain) : Plain o

theorem suits {o : StepOutput} (h : o.Plain) (hl : o.Legible) :
    Suits (.record .stepOutput) o.encode := by
  induction h with
  | @intro o content children response metrics ih =>
    obtain ⟨-, -, legible, -, -, duration, termination⟩ := hl
    have hcontent := Content.suits_encodeOption content
    have hchildren : ∀ j ∈ o.children.map fun m => .obj (m.entries.map fun e => (e.1, e.2.encode)),
        Suits (.table (.record .stepOutput)) j :=
      Option.forall_mem_map.2 fun m hm => suits_entries fun e he => ih m hm e he (legible m hm e he)
    have hduration : ∀ j ∈ o.durationMs.map natJson, Suits .value j :=
      Option.forall_mem_map.2 fun n hn => suits_natJson rfl (duration n hn)
    have htermination : ∀ j ∈ o.loopTermination.map LoopTermination.encode,
        Suits (.record .loopTermination) j :=
      Option.forall_mem_map.2 fun t ht => LoopTermination.suits (termination t ht)
    rw [encode_eq]
    refine .obj rfl ?_ ?_
    · simp only [Shape.Keeps, List.map_append]
      exact ((((((((((List.Sublist.refl ["step_name"]).append (keys_field? "step_id" _)).append
        (List.Sublist.refl ["executor_type", "executor_name", "content"])).append
        (keys_field? "parallel_step_outputs" _)).append (keys_field? "response" _)).append
        (List.Sublist.refl ["media"])).append (keys_field? "metrics" _)).append
        (keys_field? "duration_ms" _)).append (List.Sublist.refl ["success"])).append
        (keys_field? "error" _)).append (List.Sublist.refl ["stop"]) |>.append
        (keys_field? "loop_termination" _)
    · simp only [List.forall_mem_append, List.forall_mem_cons, forall_mem_field?]
      simp [Shape.member, Record.fields, Shape.counts, List.lookup_cons, ExecutorKind.encode,
        -Option.mem_def, hcontent, o.media.suits]
      exact ⟨⟨⟨⟨⟨⟨suits_texts _, hchildren⟩, response⟩, metrics⟩, hduration⟩, suits_texts _⟩,
        htermination⟩

end StepOutput

/-! ## Reports -/

namespace StepMetrics

/-- Every payload is a plain value, those of the children too. -/
inductive Plain : StepMetrics → Prop
  | intro {m : StepMetrics} (metrics : ∀ j ∈ m.metrics, j.Plain)
      (children : ∀ t ∈ m.children, ∀ e ∈ t.entries, Plain e.2) : Plain m

theorem suits {m : StepMetrics} (h : m.Plain) (hl : m.Legible) :
    Suits (.record .stepMetrics) m.encode := by
  induction h with
  | @intro m metrics children ih =>
    obtain ⟨-, -, legible, duration⟩ := hl
    have hchildren : ∀ j ∈ m.children.map fun t => .obj (t.entries.map fun e => (e.1, e.2.encode)),
        Suits (.table (.record .stepMetrics)) j :=
      Option.forall_mem_map.2 fun t ht => suits_entries fun e he => ih t ht e he (legible t ht e he)
    have hduration : ∀ j ∈ m.durationMs.map natJson, Suits .value j :=
      Option.forall_mem_map.2 fun n hn => suits_natJson rfl (duration n hn)
    rw [encode_eq]
    refine .obj rfl ?_ ?_
    · simp only [Shape.Keeps, List.map_append]
      exact (((List.Sublist.refl ["step_name", "executor_type", "executor_name"]).append
        (keys_field? "metrics" _)).append (keys_field? "parallel_steps" _)).append
        (keys_field? "duration_ms" _)
    · simp only [List.forall_mem_append, List.forall_mem_cons, forall_mem_field?]
      simp [Shape.member, Record.fields, Shape.counts, List.lookup_cons, ExecutorKind.encode,
        -Option.mem_def]
      exact ⟨⟨metrics, hchildren⟩, hduration⟩

end StepMetrics

theorem WorkflowMetrics.suits {m : WorkflowMetrics} (h : ∀ e ∈ m.steps.entries, e.2.Plain)
    (hl : m.Legible) : Suits (.record .workflowMetrics) m.encode := by
  have htotal : Suits .value (natJson m.totalSteps) := suits_natJson rfl hl.totalSteps
  have hsteps : Suits (.table (.record .stepMetrics))
      (.obj (m.steps.entries.map fun e => (e.1, e.2.encode))) :=
    suits_entries fun e he => StepMetrics.suits (h e he) (hl.steps.2 e he)
  rw [encode, StepMetrics.encodeEntries_eq]
  refine .obj rfl (List.Sublist.refl _) ?_
  simp only [List.forall_mem_cons]
  simp [Shape.member, Record.fields, List.lookup_cons, htotal, hsteps]

/-! ## Runs -/

theorem RunFailure.suits (f : RunFailure) : Suits (.record .runFailure) f.encode := by
  refine .obj rfl (List.Sublist.refl _) ?_
  simp only [List.forall_mem_cons]
  simp [Shape.member, Record.fields, Shape.counts, List.lookup_cons]

/-- A run that a table can hold: it can be written and read as a value, its payloads are plain, and
there is room for the list of runs around it. -/
structure WorkflowRun.Storable (r : WorkflowRun) : Prop where
  legible : r.Legible
  content : ∀ c ∈ r.content, c.Plain
  stepResponses : ∀ o ∈ r.stepResponses, o.Plain
  metrics : ∀ e ∈ r.metrics.steps.entries, e.2.Plain
  nesting : r.encode.nesting ≤ 126

/-- A run that came to a text at most. -/
structure WorkflowRun.Bare (r : WorkflowRun) : Prop where
  content : ∀ c ∈ r.content, ∃ s, c = .text s
  stepResponses : r.stepResponses = []
  metrics : r.metrics = {}
  failure : r.failure = none

theorem WorkflowRun.Bare.storable {r : WorkflowRun} (h : r.Bare) (hr : r.createdAt.Valid) :
    r.Storable := by
  obtain ⟨hcontent, hresponses, hmetrics, hfailure⟩ := h
  have hsteps : r.metrics.steps.entries = [] := by rw [hmetrics]; rfl
  refine ⟨⟨?_, ?_, hmetrics ▸ WorkflowMetrics.legible_empty, hr⟩, ?_, ?_, ?_, ?_⟩
  · intro c hc
    obtain ⟨s, rfl⟩ := hcontent c hc
    trivial
  · simp [hresponses]
  · intro c hc
    obtain ⟨s, rfl⟩ := hcontent c hc
    exact Suits.str (s := .value) rfl s
  · simp [hresponses]
  · simp [hsteps]
  · have hmedia := r.media.nesting_encode
    have htext : (Content.encodeOption r.content).nesting ≤ 125 := by
      cases hc : r.content with
      | none => exact Nat.zero_le _
      | some c =>
        obtain ⟨s, rfl⟩ := hcontent c hc
        exact Nat.zero_le _
    rw [encode, hresponses, hmetrics, hfailure]
    refine nesting_obj_le.2 ?_
    simp only [List.forall_mem_cons]
    refine ⟨Nat.zero_le _, Nat.zero_le _, Nat.zero_le _, Nat.zero_le _, Nat.zero_le _,
      htext, Nat.le_of_ble_eq_true rfl, Nat.le_of_ble_eq_true rfl, by omega, Nat.zero_le _,
      Nat.zero_le _, fun _ h => by cases h⟩

theorem WorkflowRun.Storable.suits {r : WorkflowRun} (h : r.Storable) :
    Suits (.record .workflowRun) r.encode := by
  have hcontent := Content.suits_encodeOption h.content
  have hresponses : Suits (.list (.record .stepOutput))
      (.arr (r.stepResponses.map StepOutput.encode)) :=
    suits_list fun v hv => by
      obtain ⟨o, ho, rfl⟩ := List.mem_map.1 hv
      exact StepOutput.suits (h.stepResponses o ho) (h.legible.stepResponses o ho)
  have hmetrics := WorkflowMetrics.suits h.metrics h.legible.metrics
  have hfailure : Suits (.record .runFailure) (nullOr (r.failure.map RunFailure.encode)) := by
    cases r.failure with
    | none => exact .null rfl
    | some f => exact f.suits
  refine .obj rfl (List.Sublist.refl _) ?_
  simp only [List.forall_mem_cons]
  simp [Shape.member, Record.fields, Shape.counts, List.lookup_cons, RunStatus.encode,
    Instant.encode, hcontent, hresponses, hmetrics, r.media.suits, hfailure]

end WorkflowEngine
