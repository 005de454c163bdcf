import WorkflowEngine.Workflow.Session

/-!
# Records in stores

What a store holds after a run was written to it: a record of the session in which the run stands
under its identifier. A table holds a row of that record.
-/

namespace WorkflowEngine

theorem SessionRecord.run?_upsertRun (record : SessionRecord) (run : WorkflowRun) (now : Instant) :
    (record.upsertRun run now).run? run.runId = some run := by
  obtain ⟨sessionId, sessionName, workflowId, workflowName, state, runs, created, updated⟩ := record
  simp only [upsertRun, run?]
  induction runs with
  | nil => simp [putRun]
  | cons r rest ih =>
    rw [putRun]
    split
    · simp
    · rename_i hne
      simpa [List.find?_cons, hne] using ih

theorem SessionRow.find?_put (row : SessionRow) (rows : List SessionRow) :
    ∃ createdAt, (row.put rows).find? (·.sessionId == row.sessionId) =
      some { row with createdAt } := by
  induction rows with
  | nil => exact ⟨row.createdAt, by simp [put]⟩
  | cons r rest ih =>
    rw [put]
    split
    · exact ⟨r.createdAt, by simp⟩
    · rename_i hne
      simpa [List.find?_cons, hne] using ih

namespace SessionRow

variable {row : SessionRow} {rows : List SessionRow}

theorem mem_put {x : SessionRow} (h : x ∈ row.put rows) :
    x ∈ rows ∨ ∃ createdAt, x = { row with createdAt } := by
  induction rows with
  | nil => exact .inr ⟨row.createdAt, by simpa [put] using h⟩
  | cons r rest ih =>
    rw [put] at h
    split at h
    · rcases List.mem_cons.1 h with rfl | hrest
      · exact .inr ⟨r.createdAt, rfl⟩
      · exact .inl (by simp [hrest])
    · rcases List.mem_cons.1 h with rfl | hrest
      · exact .inl (by simp)
      · exact (ih hrest).imp_left fun hmem => by simp [hmem]

theorem sessionIds_put (row : SessionRow) (rows : List SessionRow) :
    (row.put rows).map (·.sessionId) = if row.sessionId ∈ rows.map (·.sessionId)
      then rows.map (·.sessionId) else rows.map (·.sessionId) ++ [row.sessionId] := by
  induction rows with
  | nil => rfl
  | cons old rest ih =>
    by_cases hold : old.sessionId = row.sessionId
    · simp [put, hold]
    · have hne : ¬ row.sessionId = old.sessionId := fun heq => hold heq.symm
      simp only [put, if_neg hold, List.map_cons, ih, List.mem_cons, hne, false_or]
      split <;> simp

/-- Putting a row leaves one row for each session. -/
theorem nodup_put (row : SessionRow) (h : (rows.map (·.sessionId)).Nodup) :
    ((row.put rows).map (·.sessionId)).Nodup := by
  rw [sessionIds_put]
  split
  · exact h
  · rename_i hnew
    exact List.nodup_append.2 ⟨h, List.pairwise_singleton _ _, fun a ha b hb heq =>
      hnew (List.mem_singleton.1 hb ▸ heq ▸ ha)⟩

/-- What a row that can be read gives. -/
theorem of_toRecord {now : Instant} {r : SessionRecord} (h : row.toRecord now = .ok r) :
    r.sessionId = row.sessionId ∧ r.workflowId = row.workflowId ∧
      r.updatedAt = (Instant.ofRowText? row.updatedAt).getD now ∧
      row.state? = some r.state ∧ row.runs? = some r.runs := by
  unfold toRecord at h
  split at h
  · rename_i hstate hruns
    cases h
    exact ⟨rfl, rfl, rfl, hstate, hruns⟩
  · cases h

theorem mem_select {workflowId : Option String} :
    row ∈ select workflowId rows ↔ row ∈ rows ∧ workflowId.all (· == row.workflowId) = true := by
  rw [select, List.mem_mergeSort, List.mem_filter]

end SessionRow

namespace Store

/-- A store that reads and writes a session, and finds no record of another one there. -/
def Working (s : Store) (sessionId : String) : Prop := ∀ now, ∃ found s',
  s.read sessionId now = (.ok found, s') ∧ (∀ r, found = some r → r.sessionId = sessionId) ∧
    ∀ r, ∃ r' s'', s'.upsert r = (.ok r', s'')

/-- A store that holds a record. A table holds its row, which may have been created earlier. -/
def Holds (s : Store) (r : SessionRecord) : Prop :=
  match s with
  | memory records | refusing _ _ _ records => records.get? r.sessionId = some r
  | table rows => ∃ createdAt, rows.find? (·.sessionId == r.sessionId) =
      some { SessionRow.ofRecord r with createdAt }

theorem holds_upsert {s s' : Store} {r r' : SessionRecord} (h : s.upsert r = (.ok r', s')) :
    s'.Holds r := by
  cases s with
  | memory records =>
    cases h
    simp [Holds, KeyMap.get?_insert]
  | table rows =>
    cases h
    exact SessionRow.find?_put (SessionRow.ofRecord r) rows
  | refusing refusals reads upserts records =>
    unfold upsert at h
    dsimp only at h
    split at h <;> cases h
    simp [Holds, KeyMap.get?_insert]

end Store

namespace Engine

variable {e : Engine} {store : Ref Store}

theorem readSession_of_working {sessionId : String} (hs : store.index < e.stores.items.length)
    (h : (e.stores.get store).Working sessionId) : ∃ found e', e.readSession store sessionId =
      (.ok found, e') ∧ (∀ r, found = some r → r.sessionId = sessionId) ∧
        store.index < e'.stores.items.length ∧
        ∀ r, ∃ r' s', (e'.stores.get store).upsert r = (.ok r', s') := by
  obtain ⟨found, s', hread, hid, hupsert⟩ := h e.readClock.1
  have hget : (e.stores.set store s').get store = s' := Pool.get_set_self hs s'
  refine ⟨found, { e.readClock.2 with stores := e.stores.set store s' }, ?_, hid, ?_, ?_⟩
  · rw [readSession]
    exact congrArg (fun p => (p.1, { e.readClock.2 with stores := e.stores.set store p.2 })) hread
  · exact (Pool.size_set ..).symm ▸ hs
  · rw [hget]
    exact hupsert

theorem holds_upsertSession {r r' : SessionRecord} {s' : Store}
    (hs : store.index < e.stores.items.length) (h : (e.stores.get store).upsert r = (.ok r', s')) :
    ((e.upsertSession store r).2.stores.get store).Holds r := by
  simp only [upsertSession, h]
  have hget : (e.stores.set store s').get store = s' := Pool.get_set_self hs s'
  rw [hget]
  exact Store.holds_upsert h

end Engine

/-- A run that was written to a working store stands there in the record of its session. -/
theorem Workflow.holds_persist {w : Workflow} {store : Ref Store} {e : Engine} (run : WorkflowRun)
    (committed : Ref SessionState) (hw : w.store = some store)
    (hs : store.index < e.stores.items.length)
    (hstore : (e.stores.get store).Working run.sessionId) :
    ∃ record, ((w.persist run committed e).2.stores.get store).Holds record ∧
      record.sessionId = run.sessionId ∧ record.run? run.runId = some run := by
  obtain ⟨found, e₁, hread, hid, hs₁, hupsert⟩ := Engine.readSession_of_working hs hstore
  simp only [persist, hw, hread]
  obtain ⟨r', s', hu⟩ := hupsert _
  refine ⟨_, Engine.holds_upsertSession (e := e₁.readClock.2.readClock.2) hs₁ hu, ?_,
    SessionRecord.run?_upsertRun _ run _⟩
  cases found with
  | none => rfl
  | some record => exact hid record rfl

end WorkflowEngine
