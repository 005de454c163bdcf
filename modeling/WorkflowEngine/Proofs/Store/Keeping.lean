import WorkflowEngine.Proofs.Store.Statuses
import WorkflowEngine.Proofs.Wire.Documents

/-!
# Keeping a property of states

A table gives back of a state what it reads from its text. A property of states that outlives this
is kept for a session by every call on a store that puts nothing else there. States and runs of plain
values that are not nested too deep, at times whose years have four digits, are given back whole.
-/

namespace WorkflowEngine

/-- What a table gives back of a state. -/
def SessionState.reread? (s : SessionState) : Option SessionState :=
  (Json.read? .value s.toJson.compact).bind ofJson?

namespace Held

/-- The state that is read of it. -/
def state? : Held → Option SessionState
  | record r => some r.state
  | row r => r.state?

/-- Whether it is a row of texts. -/
def isRow : Held → Bool
  | record _ => false
  | row _ => true

theorem state?_of {r : SessionRecord} {held : Held} (h : held.Of r) :
    held.state? = some r.state ∨ held.isRow = true ∧ held.state? = r.state.reread? := by
  cases h with
  | record => exact .inl rfl
  | row createdAt => exact .inr ⟨rfl, rfl⟩

theorem state?_of_read {now : Instant} {held : Held} {r : SessionRecord}
    (h : held.read now = .ok r) : held.state? = some r.state := by
  cases held with
  | record r' =>
    cases h
    rfl
  | row row =>
    obtain ⟨-, -, -, hstate, -⟩ := SessionRow.of_toRecord h
    exact hstate

end Held

namespace Store

/-- Whether sessions are kept as rows of texts. -/
def isTable : Store → Bool
  | table _ => true
  | memory _ | refusing _ _ _ _ => false

/-- The sessions are in order, and what is kept for one of them has a property that outlives a
table. -/
structure Keeps (s : Store) (P : SessionState → Prop) (id : String) : Prop where
  filed : s.Filed
  states : ∀ held st, s.holding id = some held → held.state? = some st → P st
  reread : s.isTable = true → ∀ st st', P st → st.reread? = some st' → P st'

variable {s s' : Store} {P : SessionState → Prop} {id id' : String}

theorem isTable_read {now : Instant} {q : Except Fault (Option SessionRecord)}
    (h : s.read id now = (q, s')) : s'.isTable = s.isTable := by
  rw [after_read h]
  cases s <;> rfl

theorem isTable_upsert {r : SessionRecord} {q : Except Fault SessionRecord}
    (h : s.upsert r = (q, s')) : s'.isTable = s.isTable := by
  cases s with
  | memory records =>
    cases h
    rfl
  | table rows =>
    cases h
    rfl
  | refusing refusals reads upserts records =>
    unfold upsert at h
    dsimp only at h
    split at h <;> cases h <;> rfl

/-- Only tables keep rows. -/
theorem isTable_of_row {held : Held} (h : s.holding id = some held) (hrow : held.isRow = true) :
    s.isTable = true := by
  cases s with
  | table rows => rfl
  | _ =>
    obtain ⟨r, -, rfl⟩ := Option.map_eq_some_iff.1 h
    cases hrow

namespace Keeps

theorem read {now : Instant} {q : Except Fault (Option SessionRecord)} (hk : s.Keeps P id)
    (h : s.read id' now = (q, s')) : s'.Keeps P id := by
  have hheld := holding_read h
  refine ⟨hk.filed.congr hheld, fun held st hid => ?_, isTable_read h ▸ hk.reread⟩
  rw [hheld] at hid
  exact hk.states held st hid

/-- A record that is read of the session has the property. -/
theorem of_read {now : Instant} {r : SessionRecord} (hk : s.Keeps P id)
    (h : s.read id now = (.ok (some r), s')) : P r.state := by
  rcases read_of_holding h with ⟨-, hr⟩ | ⟨held, r', hheld, hr, hread⟩
  · cases hr
  · cases hr
    exact hk.states held _ hheld (held.state?_of_read hread)

/-- A record of another session may be written, or one whose state has the property. -/
theorem upsert {r : SessionRecord} {q : Except Fault SessionRecord} (hk : s.Keeps P id)
    (h : s.upsert r = (q, s')) (hr : r.sessionId = id → P r.state) : s'.Keeps P id := by
  have htable := isTable_upsert h
  rcases holding_upsert h with ⟨fault, -, hheld⟩ | ⟨-, held, hof, hheld⟩
  · refine ⟨hk.filed.congr hheld, fun held st hid => ?_, htable ▸ hk.reread⟩
    rw [hheld] at hid
    exact hk.states held st hid
  · refine ⟨fun id' held' hid => ?_, fun held' st hid hst => ?_, htable ▸ hk.reread⟩
    · rw [hheld] at hid
      split at hid
      · rename_i heq
        cases hid
        exact (Held.sessionId_of hof).trans heq.symm
      · exact hk.filed id' held' hid
    · have hrow := isTable_of_row hid
      rw [hheld] at hid
      split at hid
      · rename_i heq
        cases hid
        rcases Held.state?_of hof with hstate | ⟨hisRow, hstate⟩
        · exact Option.some.inj (hstate.symm.trans hst) ▸ hr heq.symm
        · exact hk.reread (htable ▸ hrow hisRow) _ _ (hr heq.symm) (hstate.symm.trans hst)
      · exact hk.states held' st hid hst

/-- A run of another session may be written, or one with a state that has the property. -/
theorem written {w : Workflow} {run : WorkflowRun} {state : SessionState} {q : Except Fault Unit}
    (hk : s.Keeps P id) (h : w.Written run state s q s') (hr : run.sessionId = id → P state) :
    s'.Keeps P id := by
  cases h with
  | unread h => exact hk.read h
  | @put now first last found s₁ _ q hread hput =>
    have hsession : (w.recordWith run state found first last).sessionId = run.sessionId :=
      Workflow.sessionId_recordWith ((Store.of_read hread).2 hk.filed)
    exact (hk.read hread).upsert hput fun hid => hr (hsession.symm.trans hid)

/-- A session may be given a name. -/
theorem rename (hk : s.Keeps P id) (sessionId name : String) (now : Instant) :
    (s.rename sessionId name now).2.Keeps P id := by
  rcases hread : s.read sessionId now with ⟨found, s₁⟩
  have hk₁ := hk.read hread
  rcases rename_cases hread name with hsame | ⟨r, q, rfl, hput⟩
  · exact hsame ▸ hk₁
  · have hid : r.sessionId = sessionId := (Store.of_read hread).2 hk.filed r rfl
    have hr : r.sessionId = id → P r.state := by
      rintro rfl
      subst hid
      exact hk.of_read hread
    exact hk₁.upsert hput hr

end Keeps

end Store

/-! ## Rows read back -/

open Wire Json

/-- An instant that can be read back from a table. -/
structure Instant.Ordinary (t : Instant) : Prop where
  valid : t.Valid
  year : 0 ≤ t.year ∧ t.year ≤ 9999

theorem Instant.Ordinary.ofRowText?_rowText {t : Instant} (h : t.Ordinary) :
    ofRowText? t.rowText = some t :=
  Instant.ofRowText?_rowText h.valid h.year

/-- A state that a table can hold. -/
structure SessionState.Storable (s : SessionState) : Prop where
  plain : s.toJson.Plain
  nesting : s.toJson.nesting ≤ 127

theorem SessionState.Storable.reread? {s : SessionState} (h : s.Storable) : s.reread? = some s := by
  rw [SessionState.reread?, read?_compact h.plain h.nesting]
  exact SessionState.undoes.reads s trivial

theorem SessionState.storable_of_entries {s : SessionState} (hplain : ∀ e ∈ s.entries, e.2.Plain)
    (hnesting : ∀ e ∈ s.entries, e.2.nesting ≤ 126) : s.Storable :=
  ⟨.obj rfl s.sorted hplain, nesting_obj_le.2 hnesting⟩

theorem SessionState.storable_empty : (∅ : SessionState).Storable :=
  storable_of_entries nofun nofun

/-- A record that a table can hold. -/
structure SessionRecord.Storable (r : SessionRecord) : Prop where
  state : r.state.Storable
  runs : ∀ run ∈ r.runs, run.Storable
  createdAt : r.createdAt.Ordinary
  updatedAt : r.updatedAt.Ordinary

theorem SessionRecord.storable_new (sessionId workflowId workflowName : String) {now : Instant}
    (h : now.Ordinary) : (SessionRecord.new sessionId workflowId workflowName now).Storable :=
  ⟨SessionState.storable_empty, nofun, h, h⟩

namespace SessionRow

variable {r : SessionRecord}

theorem state?_ofRecord (h : r.state.Storable) : (ofRecord r).state? = some r.state :=
  h.reread?

theorem runs?_ofRecord (h : ∀ run ∈ r.runs, run.Storable) : (ofRecord r).runs? = some r.runs := by
  have hsuits : Suits (.list (.record .workflowRun)) (.arr (r.runs.map WorkflowRun.encode)) :=
    suits_list fun v hv => by
      obtain ⟨run, hmem, rfl⟩ := List.mem_map.1 hv
      exact (h run hmem).suits
  have hnesting : (Json.arr (r.runs.map WorkflowRun.encode)).nesting ≤ 127 :=
    nesting_arr_le.2 fun v hv => by
      obtain ⟨run, hmem, rfl⟩ := List.mem_map.1 hv
      exact (h run hmem).nesting
  rw [runs?, ofRecord, read?_compact hsuits hnesting]
  exact WorkflowRun.undoes.listOf.reads r.runs fun run hmem => (h run hmem).legible

/-- The row of a record that a table can hold gives the record back. -/
theorem toRecord_ofRecord (h : r.Storable) (now : Instant) : (ofRecord r).toRecord now = .ok r := by
  have hcreated : Instant.ofRowText? (ofRecord r).createdAt = some r.createdAt :=
    h.createdAt.ofRowText?_rowText
  have hupdated : Instant.ofRowText? (ofRecord r).updatedAt = some r.updatedAt :=
    h.updatedAt.ofRowText?_rowText
  rw [toRecord, state?_ofRecord h.state, runs?_ofRecord h.runs, hcreated, hupdated]
  rfl

/-- Rows that can be read are read one by one. -/
theorem mapM_toRecord {rows : List SessionRow} {now : Instant}
    (h : ∀ row ∈ rows, ∃ r, row.toRecord now = .ok r) :
    rows.mapM (·.toRecord now) = .ok (rows.filterMap fun row => (row.toRecord now).toOption) := by
  induction rows with
  | nil => rfl
  | cons row rest ih =>
    rw [List.forall_mem_cons] at h
    obtain ⟨⟨r, hr⟩, hrest⟩ := h
    rw [List.mapM_cons, ih hrest, hr, List.filterMap_cons, hr]
    rfl

end SessionRow

end WorkflowEngine
