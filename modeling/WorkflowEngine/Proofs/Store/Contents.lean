import WorkflowEngine.Proofs.Store.Keeping
import WorkflowEngine.Proofs.Store.Writing

/-!
# Contents of tables

What the row of a session holds apart from names and times: a state and runs. A table whose rows can
be read can be listed, and a run that is written to it leaves it so, if a table can hold the run and
the state that come with it.
-/

namespace WorkflowEngine

namespace SessionRow

/-- What a row holds, if it can be read. -/
def content? (row : SessionRow) : Option (SessionState × List WorkflowRun) :=
  match row.state?, row.runs? with
  | some state, some runs => some (state, runs)
  | _, _ => none

variable {row : SessionRow} {rows : List SessionRow} {state : SessionState}
  {runs : List WorkflowRun} {id : String}

/-- A row that can be read gives a record with what it holds, at any time. -/
theorem toRecord_of_content? (h : row.content? = some (state, runs)) (now : Instant) :
    ∃ r, row.toRecord now = .ok r ∧ r.sessionId = row.sessionId ∧ r.state = state ∧ r.runs = runs := by
  unfold content? at h
  cases hstate : row.state? with
  | none => simp [hstate] at h
  | some state' =>
    cases hruns : row.runs? with
    | none => simp [hstate, hruns] at h
    | some runs' =>
      simp only [hstate, hruns, Option.some.injEq, Prod.mk.injEq] at h
      exact ⟨_, by rw [toRecord, hstate, hruns], rfl, h.1, h.2⟩

theorem content?_createdAt (row : SessionRow) (createdAt : String) :
    ({ row with createdAt } : SessionRow).content? = row.content? := rfl

/-- A row of a record holds what the record does, whenever it was created. -/
theorem content?_ofRecord {r : SessionRecord} (hstate : r.state.Storable)
    (hruns : ∀ run ∈ r.runs, run.Storable) (createdAt : String) :
    ({ ofRecord r with createdAt } : SessionRow).content? = some (r.state, r.runs) := by
  rw [content?_createdAt, content?, state?_ofRecord hstate, runs?_ofRecord hruns]

/-- What a table holds for a session. -/
def contents (id : String) (rows : List SessionRow) : Option (SessionState × List WorkflowRun) :=
  (rows.find? (·.sessionId == id)).bind content?

/-- A table all of whose rows can be read, that of a session with runs that can be written again. -/
structure Legible (id : String) (rows : List SessionRow) : Prop where
  reads : ∀ row ∈ rows, row.content?.isSome = true
  runs : ∀ content, contents id rows = some content → ∀ run ∈ content.2, run.Storable

theorem legible_nil (id : String) : Legible id [] := ⟨nofun, nofun⟩

namespace Legible

/-- What is read of a session is what the table holds for it. -/
theorem read (h : Legible id rows) (id' : String) (now : Instant) :
    ∃ found, (Store.table rows).read id' now = (.ok found, .table rows) ∧
      (∀ r, found = some r → r.sessionId = id') ∧
      found.map (fun r => (r.state, r.runs)) = contents id' rows := by
  unfold Store.read contents
  cases hrow : rows.find? (·.sessionId == id') with
  | none => exact ⟨none, by simp [hrow], nofun, rfl⟩
  | some row =>
    obtain ⟨⟨state, runs⟩, hcontent⟩ :=
      Option.isSome_iff_exists.1 (h.reads row (List.mem_of_find?_eq_some hrow))
    obtain ⟨r, hread, hid, hstate, hruns⟩ := toRecord_of_content? hcontent now
    refine ⟨some r, by simp [hrow, hread, Except.map], ?_, ?_⟩
    · rintro _ ⟨⟩
      simpa [hid] using List.find?_some hrow
    · simp [hcontent, hstate, hruns]

theorem list (h : Legible id rows) (workflowId : Option String) (now : Instant) :
    ∃ records, (Store.table rows).list workflowId now = .ok records := by
  refine ⟨_, mapM_toRecord fun row hrow => ?_⟩
  obtain ⟨⟨state, runs⟩, hcontent⟩ := Option.isSome_iff_exists.1 (h.reads row (mem_select.1 hrow).1)
  obtain ⟨r, hread, -⟩ := toRecord_of_content? hcontent now
  exact ⟨r, hread⟩

end Legible

end SessionRow

open SessionRow (contents Legible)

theorem SessionRecord.mem_putRun {run x : WorkflowRun} {runs : List WorkflowRun}
    (h : x ∈ putRun run runs) : x = run ∨ x ∈ runs := by
  induction runs with
  | nil => exact .inl (by simpa [putRun] using h)
  | cons r rest ih =>
    rw [putRun] at h
    split at h
    · rcases List.mem_cons.1 h with rfl | hrest
      · exact .inl rfl
      · exact .inr (by simp [hrest])
    · rcases List.mem_cons.1 h with rfl | hrest
      · exact .inr (by simp)
      · exact (ih hrest).imp_right fun hmem => by simp [hmem]

namespace SessionRow

/-- The runs of a session after one was put among them. -/
def runsWith (run : WorkflowRun) (content : Option (SessionState × List WorkflowRun)) :
    List WorkflowRun :=
  SessionRecord.putRun run (content.elim [] (·.2))

/-- The entry of a run in what is held for a session. -/
def entry? (runId : String) (content : Option (SessionState × List WorkflowRun)) :
    Option WorkflowRun :=
  content.bind (·.2.find? (·.runId == runId))

theorem entry?_runsWith (run : WorkflowRun) (state : SessionState)
    (content : Option (SessionState × List WorkflowRun)) :
    entry? run.runId (some (state, runsWith run content)) = some run :=
  SessionRecord.run?_upsertRun { SessionRecord.new "" "" "" run.createdAt with
    runs := content.elim [] (·.2) } run run.createdAt

end SessionRow

open SessionRow (runsWith)

/-- A run that is written to a legible table is put among the runs of its session, with a state. -/
theorem Workflow.Written.of_legible {w : Workflow} {run : WorkflowRun} {state : SessionState}
    {rows : List SessionRow} {q : Except Fault Unit} {s : Store}
    (hw : w.Written run state (.table rows) q s) (h : Legible run.sessionId rows) :
    q = .ok () ∧ ∃ r : SessionRecord, s = .table ((SessionRow.ofRecord r).put rows) ∧
      r.sessionId = run.sessionId ∧ r.state = state ∧
      r.runs = runsWith run (contents run.sessionId rows) := by
  cases hw with
  | @unread now fault s' hread =>
    obtain ⟨found, hok, -⟩ := h.read run.sessionId now
    cases hok.symm.trans hread
  | @put now first last found s₁ s₂ q hread hput =>
    obtain ⟨found', hok, hid, hcontent⟩ := h.read run.sessionId now
    obtain ⟨rfl, rfl⟩ : found' = found ∧ Store.table rows = s₁ := by
      have heq := hok.symm.trans hread
      simpa using heq
    cases hput
    refine ⟨rfl, w.recordWith run state found' first last, rfl, sessionId_recordWith hid, rfl, ?_⟩
    rw [← hcontent]
    cases found' <;> rfl

/-- A run that is written to a legible table with a state leaves it legible, and is put among the
runs of its session. -/
theorem Workflow.Written.legible {w : Workflow} {run : WorkflowRun} {state : SessionState}
    {rows : List SessionRow} {q : Except Fault Unit} {s : Store}
    (hw : w.Written run state (.table rows) q s) (h : Legible run.sessionId rows)
    (hrun : run.Storable) (hstate : state.Storable) :
    q = .ok () ∧ ∃ rows', s = .table rows' ∧ Legible run.sessionId rows' ∧
      contents run.sessionId rows' =
        some (state, runsWith run (contents run.sessionId rows)) := by
  obtain ⟨rfl, r, rfl, hsession, hstate', hruns⟩ := hw.of_legible h
  have hstorable : ∀ x ∈ r.runs, x.Storable := by
    intro x hx
    rw [hruns] at hx
    obtain rfl | hmem := SessionRecord.mem_putRun hx
    · exact hrun
    · cases hold : contents run.sessionId rows with
      | none => simp [hold] at hmem
      | some content => exact h.runs content hold x (by simpa [hold] using hmem)
  have hrow (createdAt : String) :
      ({ SessionRow.ofRecord r with createdAt } : SessionRow).content? = some (r.state, r.runs) :=
    SessionRow.content?_ofRecord (hstate' ▸ hstate) hstorable createdAt
  have hcontents : contents run.sessionId ((SessionRow.ofRecord r).put rows) =
      some (r.state, r.runs) := by
    obtain ⟨createdAt, hfind⟩ := SessionRow.find?_put (SessionRow.ofRecord r) rows
    rw [contents, ← hsession]
    exact (congrArg (Option.bind · SessionRow.content?) hfind).trans (hrow createdAt)
  refine ⟨rfl, _, rfl, ⟨fun row hmem => ?_, fun content hsome => ?_⟩, ?_⟩
  · obtain hold | ⟨createdAt, rfl⟩ := SessionRow.mem_put hmem
    · exact h.reads row hold
    · rw [hrow createdAt]
      rfl
  · obtain rfl := Option.some.inj (hsome.symm.trans hcontents)
    exact hstorable
  · rw [hcontents, hstate', hruns]

/-! ## States that cannot be read -/

section Unread

variable {row : SessionRow} {rows : List SessionRow} {id : String}

theorem SessionRow.toRecord_unread (h : row.state? = none) (now : Instant) :
    row.toRecord now = .error (.json "malformed document in a stored session") := by
  rw [toRecord, h]

/-- A session whose state cannot be read is not read. -/
theorem Store.read_unread (hrow : rows.find? (·.sessionId == id) = some row) (h : row.state? = none)
    (now : Instant) : ∃ fault, (table rows).read id now = (.error fault, table rows) :=
  ⟨_, by simp only [read, hrow, SessionRow.toRecord_unread h]; rfl⟩

/-- No session is listed if the state of one of them cannot be read. -/
theorem Store.list_unread (hrow : row ∈ rows) (h : row.state? = none) (now : Instant) :
    ∃ fault, (table rows).list none now = .error fault := by
  have hread : ∀ l : List SessionRow, row ∈ l → ∃ fault, l.mapM (·.toRecord now) = .error fault := by
    intro l hmem
    induction l with
    | nil => cases hmem
    | cons first rest ih =>
      rw [List.mapM_cons]
      cases hfirst : first.toRecord now with
      | error fault => exact ⟨fault, rfl⟩
      | ok r =>
        rcases List.mem_cons.1 hmem with rfl | hrest
        · rw [SessionRow.toRecord_unread h] at hfirst
          cases hfirst
        · obtain ⟨fault, hfault⟩ := ih hrest
          exact ⟨fault, by rw [hfault]; rfl⟩
  exact hread _ (SessionRow.mem_select.2 ⟨hrow, rfl⟩)

/-- A run that is written to a legible table with a state that cannot be read is written all the
same. -/
theorem Workflow.Written.unreadable {w : Workflow} {run : WorkflowRun} {state : SessionState}
    {q : Except Fault Unit} {s : Store} (hw : w.Written run state (.table rows) q s)
    (h : Legible run.sessionId rows) (hstate : state.reread? = none) :
    q = .ok () ∧ ∃ rows' row, s = .table rows' ∧
      rows'.find? (·.sessionId == run.sessionId) = some row ∧ row.state? = none := by
  obtain ⟨rfl, r, rfl, hsession, hstate', -⟩ := hw.of_legible h
  obtain ⟨createdAt, hfind⟩ := SessionRow.find?_put (SessionRow.ofRecord r) rows
  rw [← hsession]
  refine ⟨rfl, _, _, rfl, hfind, ?_⟩
  rw [← hstate'] at hstate
  exact hstate

end Unread

end WorkflowEngine
