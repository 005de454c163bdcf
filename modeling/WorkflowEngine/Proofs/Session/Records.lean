import WorkflowEngine.Proofs.Session.Ledgers

/-!
# Records of sessions

What the store would give back for a session, the runs in it and what a write does to it: the run
that is written stands in the place of its identifier, and all others stay.
-/

namespace WorkflowEngine

namespace SessionRecord

/-- The identifiers of the runs, in order. -/
def runIds (record : SessionRecord) : List String := record.runs.map WorkflowRun.runId

theorem run?_upsertRun_ne (record : SessionRecord) {run : WorkflowRun} (now : Instant)
    {runId : String} (h : runId ≠ run.runId) :
    (record.upsertRun run now).run? runId = record.run? runId := by
  simp only [upsertRun, run?]
  induction record.runs with
  | nil => simp [putRun, Ne.symm h]
  | cons r rest ih =>
    rw [putRun]
    split
    · rename_i hr
      simp [hr, Ne.symm h]
    · rw [List.find?_cons, List.find?_cons, ih]

private theorem map_runId_putRun (run : WorkflowRun) (runs : List WorkflowRun) :
    (putRun run runs).map WorkflowRun.runId =
      if run.runId ∈ runs.map WorkflowRun.runId then runs.map WorkflowRun.runId
      else runs.map WorkflowRun.runId ++ [run.runId] := by
  induction runs with
  | nil => simp [putRun]
  | cons r rest ih =>
    rw [putRun]
    split
    · rename_i hr
      simp [hr]
    · rename_i hr
      rw [List.map_cons, ih]
      by_cases hmem : run.runId ∈ rest.map WorkflowRun.runId
      · simp [hmem]
      · simp [hmem, Ne.symm hr]

/-- A run that is put into a record keeps its place there or gets the last one. -/
theorem runIds_upsertRun (record : SessionRecord) (run : WorkflowRun) (now : Instant) :
    (record.upsertRun run now).runIds =
      if run.runId ∈ record.runIds then record.runIds else record.runIds ++ [run.runId] :=
  map_runId_putRun run record.runs

theorem mem_runIds_of_run? {record : SessionRecord} {runId : String} {run : WorkflowRun}
    (h : record.run? runId = some run) : runId ∈ record.runIds := by
  have hid := List.find?_some h
  exact List.mem_map.2 ⟨run, List.mem_of_find?_eq_some h, by simpa using hid⟩

end SessionRecord

namespace Workflow

variable (home : Workflow)

/-- The record of a session, if the store gives one back. -/
def record? (id : String) (e : Engine) : Option SessionRecord :=
  (home.storedSession id e).1.toOption.join

/-- The entry of a run in the record of a session. -/
def stored? (id runId : String) (e : Engine) : Option WorkflowRun :=
  (home.record? id e).bind (·.run? runId)

/-- The identifiers of the runs in the record of a session, in order. -/
def runIds (id : String) (e : Engine) : List String :=
  ((home.record? id e).map SessionRecord.runIds).getD []

variable {home} {w : Workflow} {e e' : Engine} {id runId : String} {run : WorkflowRun}
  {state : SessionState} {found : Option SessionRecord} {first last : Instant}

theorem mem_runIds_of_stored? (h : home.stored? id runId e = some run) :
    runId ∈ home.runIds id e := by
  unfold stored? at h
  obtain ⟨record, hrecord, hrun⟩ := Option.bind_eq_some_iff.1 h
  unfold runIds
  rw [hrecord]
  exact SessionRecord.mem_runIds_of_run? hrun

theorem stored?_of_not_mem (h : runId ∉ home.runIds id e) : home.stored? id runId e = none := by
  cases hr : home.stored? id runId e with
  | none => rfl
  | some run => exact absurd (mem_runIds_of_stored? hr) h

/-! ## Records that a run was put into -/

@[simp] theorem sessionName_recordWith :
    (w.recordWith run state found first last).sessionName = found.bind (·.sessionName) := by
  cases found <;> rfl

theorem run?_recordWith_self :
    (w.recordWith run state found first last).run? run.runId = some run :=
  SessionRecord.run?_upsertRun _ run last

theorem run?_recordWith_ne (h : runId ≠ run.runId) :
    (w.recordWith run state found first last).run? runId = found.bind (·.run? runId) := by
  unfold recordWith
  rw [SessionRecord.run?_upsertRun_ne _ last h]
  cases found <;> rfl

theorem runIds_recordWith :
    (w.recordWith run state found first last).runIds =
      let ids := (found.map SessionRecord.runIds).getD []
      if run.runId ∈ ids then ids else ids ++ [run.runId] := by
  unfold recordWith
  rw [SessionRecord.runIds_upsertRun]
  cases found <;> rfl

/-! ## Stores in memory -/

/-- The store of a workflow keeps its records in memory. -/
def InMemory (home : Workflow) (e : Engine) : Prop :=
  ∃ store records, home.store = some store ∧ store.index < e.stores.items.length ∧
    e.stores.get store = .memory records

/-- A call that leaves the store as it is. -/
theorem InMemory.of_stores (h : home.InMemory e) (hs : e'.stores = e.stores) :
    home.InMemory e' := by
  obtain ⟨store, records, hstore, hlt, hget⟩ := h
  exact ⟨store, records, hstore, hs ▸ hlt, hs ▸ hget⟩

theorem InMemory.record?_eq {store : Ref Store} {records : KeyMap SessionRecord}
    (hstore : home.store = some store) (hget : e.stores.get store = .memory records) :
    home.record? id e = records.get? id := by
  unfold record? storedSession Engine.readSession
  simp only [hstore, Engine.readClock, hget]
  rfl

/-- A run that is written to the memory is put into the record of its session. -/
theorem InMemory.of_written {store : Ref Store} {q : Except Fault Unit} {s : Store}
    (h : home.InMemory e) (e' : Engine) (hstore : home.store = some store)
    (hf : ∀ r, home.record? run.sessionId e = some r → r.sessionId = run.sessionId)
    (hw : w.Written run state (e.stores.get store) q s) (hs : e'.stores = e.stores.set store s) :
    q = .ok () ∧ home.InMemory e' ∧
      (∀ id, id ≠ run.sessionId → home.record? id e' = home.record? id e) ∧
      ∃ first last, home.record? run.sessionId e' =
        some (w.recordWith run state (home.record? run.sessionId e) first last) := by
  obtain ⟨store', records, hstore', hlt, hget⟩ := h
  obtain rfl : store' = store := Option.some.inj (hstore'.symm.trans hstore)
  rw [InMemory.record?_eq hstore hget] at hf
  rw [hget] at hw
  cases hw with
  | unread h => cases h
  | @put now first last found s₁ s₂ q hread hput =>
    cases hread
    cases hput
    have hid : (w.recordWith run state (records.get? run.sessionId) first last).sessionId =
        run.sessionId := sessionId_recordWith hf
    have hget' : e'.stores.get store' = .memory (records.insert run.sessionId
        (w.recordWith run state (records.get? run.sessionId) first last)) := by
      rw [hs, hid]
      exact Pool.get_set_self hlt _
    have hrecord (id : String) : home.record? id e' = if id = run.sessionId then
        some (w.recordWith run state (home.record? run.sessionId e) first last)
        else home.record? id e := by
      rw [InMemory.record?_eq hstore hget', InMemory.record?_eq hstore hget,
        InMemory.record?_eq hstore hget, KeyMap.get?_insert]
    exact ⟨rfl, ⟨store', _, hstore, hs ▸ (Pool.size_set ..).symm ▸ hlt, hget'⟩,
      fun id hne => (hrecord id).trans (if_neg hne), first, last, (hrecord _).trans (if_pos rfl)⟩

end Workflow

end WorkflowEngine
