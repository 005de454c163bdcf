import WorkflowEngine.Proofs.Wire.Fields
import WorkflowEngine.Wire.Step

/-!
# Step values read back

Content, media, step outputs and inputs: which of them the documents carry, and that reading undoes
writing on just these.
-/

namespace WorkflowEngine

open Wire

/-! ## Content -/

/-- Numbers are finite; the keys of an object increase. -/
def Content.Legible : Content → Prop
  | .number x => x.isFinite = true
  | .object members => members.Sorted
  | .text _ | .list _ => True

namespace Content

theorem undoes : Undoes decode? toJson Legible where
  reads
    | .text _, _ => rfl
    | .number x, h => by
      have hfinite : x.isFinite = true := h
      rw [toJson, if_pos hfinite]
      rfl
    | .object members, h => by
      have hentries : KeyMap.ofList members.entries = members := h.ofList_entries
      exact congrArg (fun members => some (object members)) hentries
    | .list _, _ => rfl
  gives {j c} hj h := by
    cases j with
    | null | bool => cases h
    | int n =>
      cases h
      exact hj.isFinite_int
    | float x =>
      cases h
      cases hj
      assumption
    | str | arr =>
      cases h
      trivial
    | obj members =>
      cases h
      exact KeyMap.sorted_ofList members

theorem toJson_ne_null {c : Content} (h : c.Legible) : c.toJson ≠ .null := by
  intro hnull
  have hread := undoes.reads c h
  rw [hnull] at hread
  cases hread

/-- Content or null. -/
theorem undoes_option : Undoes (nullable? decode?) encodeOption fun o => ∀ c ∈ o, c.Legible :=
  undoes.nullable fun _ => toJson_ne_null

end Content

/-! ## Media -/

@[simp] theorem MediaKind.find?_name (k : MediaKind) :
    MediaKind.all.find? (MediaKind.name · == k.name) = some k := by
  cases k <;> rfl

namespace MediaArtifact

theorem undoes : Undoes decode? encode fun _ => True where
  reads a _ := by
    simp [decode?, encode, members?, required?, optional?, defaulted?_eq, variant?]
  gives _ _ := trivial

end MediaArtifact

namespace MediaSet

private theorem lookup_listField (key key' : String) (l : List MediaArtifact) :
    (listField key l).lookup key' =
      if key' = key ∧ l ≠ [] then some (.arr (l.map MediaArtifact.encode)) else none := by
  cases l <;> simp [listField]

private theorem elim_list (l : List MediaArtifact) :
    (if l = [] then none else some (Json.arr (l.map MediaArtifact.encode))).elim (some [])
      (listOf? MediaArtifact.decode?) = some l := by
  split
  · simp [*]
  · exact MediaArtifact.undoes.listOf.reads l fun _ _ => trivial

theorem undoes : Undoes decode? encode fun _ => True where
  reads m _ := by
    simp [decode?, encode, members?, defaulted?_eq, lookup_listField, elim_list]
  gives _ _ := trivial

end MediaSet

namespace LoopTermination

def Legible (t : LoopTermination) : Prop := t.iterations < Word.unsignedEnd

theorem undoes : Undoes decode? encode Legible where
  reads t h := by
    have hstate : LoopState.all.find? (LoopState.name · == t.state.name) = some t.state := by
      cases t.state <;> rfl
    simp [decode?, encode, members?, required?, variant?, hstate, undoes_word.reads _ h]
  gives {j t} hj h := by
    simp only [decode?, Option.bind_eq_bind, Option.bind_eq_some_iff, Option.pure_def,
      Option.some.injEq] at h
    obtain ⟨ms, hms, state, _, iterations, hiterations, rfl⟩ := h
    exact undoes_word.of_required (ranged_of_members? hj hms) hiterations

/-- How a loop ended, or null. -/
theorem undoes_option :
    Undoes (nullable? decode?) (fun o => nullOr (o.map encode)) fun o => ∀ t ∈ o, t.Legible :=
  undoes.nullable fun _ _ => nofun

end LoopTermination

/-! ## Outputs -/

theorem ExecutorKind.find?_name (k : ExecutorKind) :
    ExecutorKind.all.find? (ExecutorKind.name · == k.name) = some k := by
  cases k <;> rfl

theorem ExecutorKind.undoes : Undoes decode? encode fun _ => True :=
  undoes_variant Json.isNull find?_name

namespace StepOutput

/-- Content that can be written, children in the order of their names, numbers that fit in a word,
and no payload that is null. -/
inductive Legible : StepOutput → Prop
  | intro {o : StepOutput} (content : ∀ c ∈ o.content, c.Legible)
      (sorted : ∀ m ∈ o.children, m.Sorted)
      (children : ∀ m ∈ o.children, ∀ e ∈ m.entries, Legible e.2)
      (response : o.response ≠ some .null) (metrics : o.metrics ≠ some .null)
      (duration : ∀ n ∈ o.durationMs, n < Word.unsignedEnd)
      (termination : ∀ t ∈ o.loopTermination, t.Legible) : Legible o

theorem encodeEntries_eq (entries : List (String × StepOutput)) :
    encodeEntries entries = entries.map fun e => (e.1, e.2.encode) := by
  induction entries with
  | nil => rfl
  | cons e rest ih => simp [encodeEntries, ih]

theorem encode_eq (o : StepOutput) :
    o.encode = .obj ([("step_name", .str o.stepName)] ++ field? "step_id" (o.stepId.map .str)
      ++ [("executor_type", o.executorKind.encode), ("executor_name", .str o.executorName),
        ("content", Content.encodeOption o.content)]
      ++ field? "parallel_step_outputs"
          (o.children.map fun m => .obj (m.entries.map fun e => (e.1, e.2.encode)))
      ++ field? "response" o.response ++ [("media", o.media.encode)] ++ field? "metrics" o.metrics
      ++ field? "duration_ms" (o.durationMs.map natJson) ++ [("success", .bool o.success)]
      ++ field? "error" (o.error.map .str) ++ [("stop", .bool o.stop)]
      ++ field? "loop_termination" (o.loopTermination.map LoopTermination.encode)) := by
  obtain ⟨_, _, _, _, _, children, _, _, _, _, _, _, _, _⟩ := o
  cases children <;> simp [encode, encodeEntries_eq, field?]

private theorem decodeEntries?_eq (members : Members) :
    decodeEntries? members = members.mapM fun e => do return (e.1, ← decode? e.2) := by
  induction members with
  | nil => rfl
  | cons e rest ih => simp [decodeEntries?, ih, List.mapM_cons, Option.bind_assoc]

private theorem decodeChildren?_eq (j : Json) :
    decodeChildren? j = nullable? (tableOf? decode?) j := by
  cases j with
  | obj members =>
    simp only [decodeChildren?, nullable?, tableOf?, Json.members?, decodeEntries?_eq,
      Option.bind_eq_bind, Option.pure_def, Option.bind_some]
    cases (members.mapM fun e => (decode? e.2).bind fun o => some (e.1, o)) <;> rfl
  | _ => rfl

private theorem childrenMember?_eq (members : Members) :
    childrenMember? members = optional? members "parallel_step_outputs" (tableOf? decode?) := by
  induction members with
  | nil => rfl
  | cons e rest ih =>
    obtain ⟨key, v⟩ := e
    simp only [childrenMember?, optional?, defaulted?_eq, lookup_cons, decodeChildren?_eq] at ih ⊢
    by_cases h : key = "parallel_step_outputs"
    · simp [h]
    · simp [h, Ne.symm h, ih]

private theorem childrenItem?_eq (place : Nat) (items : List Json) :
    childrenItem? place items = (items[place]?).elim (some none) decodeChildren? := by
  induction items generalizing place with
  | nil => simp [childrenItem?]
  | cons v rest ih => cases place <;> simp [childrenItem?, ih]

/-- Reading an output, with the children read like any other field. -/
theorem decode?_eq (j : Json) :
    decode? j = (members? .stepOutput j).bind fun ms =>
      (optional? ms "parallel_step_outputs" (tableOf? decode?)).bind (ofMembers? ms) := by
  cases j with
  | obj members => simp [decode?, members?, childrenMember?_eq]
  | arr items =>
    have hplace : (Json.Record.fieldNames .stepOutput)[5]? = some "parallel_step_outputs" := rfl
    have hfirst : "parallel_step_outputs" ∉ (Json.Record.fieldNames .stepOutput).take 5 := by decide
    have hchildren : childrenItem? 5 items = optional? ((Json.Record.fieldNames .stepOutput).zip items)
        "parallel_step_outputs" (tableOf? decode?) := by
      simp only [childrenItem?_eq, optional?, defaulted?_eq, lookup_zip items hplace hfirst,
        funext decodeChildren?_eq]
    simp only [decode?, hchildren, members?, Option.bind_eq_bind]
    split <;> rfl
  | _ => simp [decode?, members?]

/-- The fields that are read are those of the output. -/
theorem ofMembers?_eq_some {ms : Members} {children : Option (KeyMap StepOutput)} {o : StepOutput} :
    ofMembers? ms children = some o ↔
      defaulted? ms "step_name" "" Json.text? = some o.stepName ∧
      optional? ms "step_id" Json.text? = some o.stepId ∧
      defaulted? ms "executor_type" .function ExecutorKind.decode? = some o.executorKind ∧
      defaulted? ms "executor_name" "" Json.text? = some o.executorName ∧
      optional? ms "content" Content.decode? = some o.content ∧
      optional? ms "response" some = some o.response ∧
      defaulted? ms "media" {} MediaSet.decode? = some o.media ∧
      optional? ms "metrics" some = some o.metrics ∧
      optional? ms "duration_ms" Json.word? = some o.durationMs ∧
      defaulted? ms "success" true Json.bool? = some o.success ∧
      optional? ms "error" Json.text? = some o.error ∧
      defaulted? ms "stop" false Json.bool? = some o.stop ∧
      optional? ms "loop_termination" LoopTermination.decode? = some o.loopTermination ∧
      children = o.children := by
  constructor
  · intro h
    obtain ⟨stepName, hname, h⟩ := Option.bind_eq_some_iff.1 h
    obtain ⟨stepId, hid, h⟩ := Option.bind_eq_some_iff.1 h
    obtain ⟨kind, hkind, h⟩ := Option.bind_eq_some_iff.1 h
    obtain ⟨executor, hexecutor, h⟩ := Option.bind_eq_some_iff.1 h
    obtain ⟨content, hcontent, h⟩ := Option.bind_eq_some_iff.1 h
    obtain ⟨response, hresponse, h⟩ := Option.bind_eq_some_iff.1 h
    obtain ⟨media, hmedia, h⟩ := Option.bind_eq_some_iff.1 h
    obtain ⟨metrics, hmetrics, h⟩ := Option.bind_eq_some_iff.1 h
    obtain ⟨duration, hduration, h⟩ := Option.bind_eq_some_iff.1 h
    obtain ⟨success, hsuccess, h⟩ := Option.bind_eq_some_iff.1 h
    obtain ⟨error, herror, h⟩ := Option.bind_eq_some_iff.1 h
    obtain ⟨stop, hstop, h⟩ := Option.bind_eq_some_iff.1 h
    obtain ⟨termination, htermination, h⟩ := Option.bind_eq_some_iff.1 h
    obtain rfl := Option.some.inj h
    exact ⟨hname, hid, hkind, hexecutor, hcontent, hresponse, hmedia, hmetrics, hduration, hsuccess,
      herror, hstop, htermination, rfl⟩
  · rintro ⟨hname, hid, hkind, hexecutor, hcontent, hresponse, hmedia, hmetrics, hduration, hsuccess,
      herror, hstop, htermination, rfl⟩
    rw [ofMembers?, hname, hid, hkind, hexecutor, hcontent, hresponse, hmedia, hmetrics, hduration,
      hsuccess, herror, hstop, htermination]
    cases o
    rfl

theorem decode?_encode {o : StepOutput} (h : o.Legible) : decode? o.encode = some o := by
  induction h with
  | @intro o content sorted children response metrics duration termination ih =>
    have hchildren := elim_table sorted ih
    have hcontent := Content.undoes_option.reads _ content
    have hduration := undoes_optionalWord.elim duration
    have hresponse := elim_any response
    have hmetrics := elim_any metrics
    have htermination := LoopTermination.undoes_option.elim termination
    rw [encode_eq, decode?_eq]
    refine Option.bind_eq_some_iff.2 ⟨_, rfl, Option.bind_eq_some_iff.2 ⟨o.children, ?_, ?_⟩⟩
    · simp [optional?, defaulted?_eq, hchildren]
    · refine ofMembers?_eq_some.2 ?_
      simp [optional?, defaulted?_eq, hcontent, hduration, hresponse, hmetrics, htermination,
        ExecutorKind.undoes.reads, MediaSet.undoes.reads]

private theorem legible_of_ofMembers? {ms : Members} {children : Option (KeyMap StepOutput)}
    {o : StepOutput} (hms : RangedMembers ms) (h : ofMembers? ms children = some o)
    (hsorted : ∀ m ∈ children, m.Sorted)
    (hchildren : ∀ m ∈ children, ∀ e ∈ m.entries, e.2.Legible) : o.Legible := by
  obtain ⟨-, -, -, -, hcontent, hresponse, -, hmetrics, hduration, -, -, -, htermination, rfl⟩ :=
    ofMembers?_eq_some.1 h
  exact .intro (Content.undoes_option.of_optional hms (by simp) hcontent) hsorted hchildren
    (undoes_any.of_optional hms nofun hresponse) (undoes_any.of_optional hms nofun hmetrics)
    (undoes_optionalWord.of_optional hms (by simp) hduration)
    (LoopTermination.undoes_option.of_optional hms (by simp) htermination)

theorem undoes : Undoes decode? encode Legible :=
  ⟨fun _ => decode?_encode, gives_of_children decode?_eq legible_of_ofMembers?⟩

end StepOutput

/-! ## Inputs -/

/-- What `StepOutput.Legible` says of the content and of every earlier output. -/
structure StepInput.Legible (i : StepInput) : Prop where
  message : ∀ c ∈ i.message, c.Legible
  previousContent : ∀ c ∈ i.previousContent, c.Legible
  previousOutputs : i.previousOutputs.Sorted ∧ ∀ e ∈ i.previousOutputs.entries, e.2.Legible
  additionalData : i.additionalData.Sorted

theorem StepInput.undoes : Undoes decode? encode Legible where
  reads i h := by
    have houtputs := StepOutput.undoes.tableOf.reads _ h.previousOutputs
    simp [decode?, encode, members?, optional?, defaulted?_eq, StepOutput.encodeEntries_eq,
      Content.undoes_option.reads _ h.message, Content.undoes_option.reads _ h.previousContent,
      houtputs, undoes_map.reads _ h.additionalData, MediaSet.undoes.reads]
  gives {j i} hj h := by
    simp only [decode?, Option.bind_eq_bind, Option.bind_eq_some_iff, Option.pure_def,
      Option.some.injEq] at h
    obtain ⟨ms, hms, message, hmessage, previous, hprevious, outputs, houtputs, data, hdata,
      _, _, rfl⟩ := h
    have hranged := ranged_of_members? hj hms
    exact {
      message := Content.undoes_option.of_optional hranged (by simp) hmessage
      previousContent := Content.undoes_option.of_optional hranged (by simp) hprevious
      previousOutputs := StepOutput.undoes.tableOf.of_defaulted hranged ⟨KeyMap.sorted_empty, nofun⟩ houtputs
      additionalData := undoes_map.of_defaulted hranged KeyMap.sorted_empty hdata }

structure ExecutionInput.Legible (i : ExecutionInput) : Prop where
  message : ∀ c ∈ i.message, c.Legible
  additionalData : i.additionalData.Sorted

theorem ExecutionInput.undoes : Undoes decode? encode Legible where
  reads i h := by
    simp [decode?, encode, members?, optional?, defaulted?_eq,
      Content.undoes_option.reads _ h.message, undoes_map.reads _ h.additionalData,
      MediaSet.undoes.reads]
  gives {j i} hj h := by
    simp only [decode?, Option.bind_eq_bind, Option.bind_eq_some_iff, Option.pure_def,
      Option.some.injEq] at h
    obtain ⟨ms, hms, message, hmessage, data, hdata, _, _, rfl⟩ := h
    have hranged := ranged_of_members? hj hms
    exact {
      message := Content.undoes_option.of_optional hranged (by simp) hmessage
      additionalData := undoes_map.of_defaulted hranged KeyMap.sorted_empty hdata }

end WorkflowEngine
