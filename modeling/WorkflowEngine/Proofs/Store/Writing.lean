import WorkflowEngine.Proofs.Store.Records
import WorkflowEngine.Proofs.Workflow.Frames

/-!
# Writing runs to stores

A run is written by reading the record of its session, putting the run and the committed state into
it and writing it back. Whatever becomes of the two calls, the store keeps what it kept for every
other session.
-/

namespace WorkflowEngine

/-- What a store keeps for a session. -/
inductive Held where
  | record (r : SessionRecord)
  | row (row : SessionRow)

namespace Held

/-- The record that is read at a time. -/
def read (now : Instant) : Held → Except Fault SessionRecord
  | record r => .ok r
  | row r => r.toRecord now

/-- It is kept for a record: the record itself, or a row of it that may have been created earlier. -/
inductive Of (r : SessionRecord) : Held → Prop
  | record : Of r (.record r)
  | row (createdAt : String) : Of r (.row { SessionRow.ofRecord r with createdAt })

end Held

theorem SessionRow.find?_put_ne (row : SessionRow) (rows : List SessionRow) {id : String}
    (h : id ≠ row.sessionId) :
    (row.put rows).find? (·.sessionId == id) = rows.find? (·.sessionId == id) := by
  induction rows with
  | nil => simp [put, Ne.symm h]
  | cons r rest ih =>
    rw [put]
    split
    · rename_i hr
      simp [hr, Ne.symm h]
    · rw [List.find?_cons, List.find?_cons, ih]

namespace Store

def holding (s : Store) (id : String) : Option Held :=
  match s with
  | memory records | refusing _ _ _ records => (records.get? id).map .record
  | table rows => (rows.find? (·.sessionId == id)).map .row

variable {s s' : Store} {id : String} {now : Instant}

/-- A store is the same after a read, but for the count of one that refuses some. -/
theorem after_read {q : Except Fault (Option SessionRecord)} (h : s.read id now = (q, s')) :
    s' = match s with
      | memory records => memory records
      | table rows => table rows
      | refusing refusals reads upserts records => refusing refusals (reads + 1) upserts records := by
  cases s with
  | memory records =>
    cases h
    rfl
  | table rows =>
    unfold read at h
    dsimp only at h
    split at h <;> cases h <;> rfl
  | refusing refusals reads upserts records =>
    unfold read at h
    dsimp only at h
    split at h <;> cases h <;> rfl

theorem holding_read {q : Except Fault (Option SessionRecord)} (h : s.read id now = (q, s'))
    (id' : String) : s'.holding id' = s.holding id' := by
  rw [after_read h]
  cases s <;> rfl

/-- What is read of a session is what the store keeps for it. -/
theorem read_of_holding {found : Option SessionRecord} (h : s.read id now = (.ok found, s')) :
    s.holding id = none ∧ found = none ∨
      ∃ held r, s.holding id = some held ∧ found = some r ∧ held.read now = .ok r := by
  have hrecord (records : KeyMap SessionRecord) :
      (records.get? id).map Held.record = none ∧ records.get? id = none ∨
        ∃ held r, (records.get? id).map Held.record = some held ∧ records.get? id = some r ∧
          held.read now = .ok r := by
    cases records.get? id with
    | none => exact .inl ⟨rfl, rfl⟩
    | some r => exact .inr ⟨_, r, rfl, rfl, rfl⟩
  cases s with
  | memory records =>
    cases h
    exact hrecord records
  | table rows =>
    unfold read at h
    unfold holding
    dsimp only at h ⊢
    cases hrow : rows.find? (·.sessionId == id) with
    | none =>
      rw [hrow] at h
      cases h
      exact .inl ⟨rfl, rfl⟩
    | some row =>
      rw [hrow] at h
      obtain ⟨hr, -⟩ := Prod.mk.inj h
      cases hread : row.toRecord now with
      | error fault =>
        rw [hread] at hr
        cases hr
      | ok r =>
        rw [hread] at hr
        exact .inr ⟨.row row, r, rfl, (Except.ok.inj hr).symm, hread⟩
  | refusing refusals reads upserts records =>
    unfold read at h
    dsimp only at h
    split at h <;> cases h
    exact hrecord records

/-- A record that is written takes the place of what was kept for its session, or nothing changes. -/
theorem holding_upsert {r : SessionRecord} {q : Except Fault SessionRecord}
    (h : s.upsert r = (q, s')) :
    (∃ fault, q = .error fault ∧ ∀ id, s'.holding id = s.holding id) ∨
      q = .ok r ∧ ∃ held : Held, held.Of r ∧
        ∀ id, s'.holding id = if id = r.sessionId then some held else s.holding id := by
  have hinsert (records : KeyMap SessionRecord) (id : String) :
      ((records.insert r.sessionId r).get? id).map Held.record =
        if id = r.sessionId then some (.record r) else (records.get? id).map .record := by
    rw [KeyMap.get?_insert]
    split <;> rfl
  cases s with
  | memory records =>
    cases h
    exact .inr ⟨rfl, .record r, .record, hinsert records⟩
  | table rows =>
    cases h
    obtain ⟨createdAt, hput⟩ := SessionRow.find?_put (SessionRow.ofRecord r) rows
    refine .inr ⟨rfl, .row { SessionRow.ofRecord r with createdAt }, .row createdAt, fun id => ?_⟩
    unfold holding
    by_cases hid : id = r.sessionId
    · subst hid
      rw [if_pos rfl]
      exact congrArg (Option.map Held.row) hput
    · rw [if_neg hid]
      exact congrArg (Option.map Held.row) (SessionRow.find?_put_ne _ rows hid)
  | refusing refusals reads upserts records =>
    unfold upsert at h
    dsimp only at h
    split at h
    · cases h
      exact .inl ⟨_, rfl, fun _ => rfl⟩
    · cases h
      exact .inr ⟨rfl, .record r, .record, hinsert records⟩

/-- A name is put into the record that is read of a session. If none is read, nothing is written. -/
theorem rename_cases {found : Except Fault (Option SessionRecord)} (h : s.read id now = (found, s'))
    (name : String) : (s.rename id name now).2 = s' ∨ ∃ r q, found = .ok (some r) ∧
      s'.upsert { r with sessionName := some name, updatedAt := now } =
        (q, (s.rename id name now).2) := by
  unfold rename
  rw [h]
  match found with
  | .error fault => exact .inl rfl
  | .ok none => exact .inl rfl
  | .ok (some r) =>
    dsimp only
    cases hput : s'.upsert { r with sessionName := some name, updatedAt := now } with
    | mk q s₂ => cases q <;> exact .inr ⟨r, _, rfl, hput⟩

end Store

namespace Workflow

/-- The record that a run is put into, with a state, at the times that are read before. -/
def recordWith (w : Workflow) (run : WorkflowRun) (state : SessionState)
    (found : Option SessionRecord) (first last : Instant) : SessionRecord :=
  { found.getD (SessionRecord.new run.sessionId w.id w.name first) with
    workflowName := w.name
    state }.upsertRun run last

/-- The record stays that of the session of the run. -/
theorem sessionId_recordWith {w : Workflow} {run : WorkflowRun} {state : SessionState}
    {found : Option SessionRecord} {first last : Instant}
    (hf : ∀ r, found = some r → r.sessionId = run.sessionId) :
    (w.recordWith run state found first last).sessionId = run.sessionId := by
  cases found with
  | none => rfl
  | some r => exact hf r rfl

/-- A run is written to a store with a state, and how it comes out. -/
inductive Written (w : Workflow) (run : WorkflowRun) (state : SessionState) (s : Store) :
    Except Fault Unit → Store → Prop
  | unread {now : Instant} {fault : Fault} {s' : Store}
      (h : s.read run.sessionId now = (.error fault, s')) :
      Written w run state s (.error fault) s'
  | put {now first last : Instant} {found : Option SessionRecord} {s₁ s₂ : Store}
      {q : Except Fault SessionRecord} (hread : s.read run.sessionId now = (.ok found, s₁))
      (hput : s₁.upsert (w.recordWith run state found first last) = (q, s₂)) :
      Written w run state s (q.map fun _ => ()) s₂

variable {w : Workflow} {store : Ref Store} {e : Engine}

private theorem set_set (p : Pool Store) (s s' : Store) :
    (p.set store s).set store s' = p.set store s' := by
  simp [Pool.set, List.set_set]

/-- A workflow with a store writes its runs there. -/
theorem persist_written (run : WorkflowRun) (committed : Ref SessionState)
    (hw : w.store = some store) (hs : store.index < e.stores.items.length) :
    ∃ r s readings, w.Written run (e.states.get committed) (e.stores.get store) r s ∧
      w.persist run committed e = (r, { e with stores := e.stores.set store s, readings }) := by
  rcases hread : (e.stores.get store).read run.sessionId e.readClock.1 with ⟨found, s₁⟩
  have hget : (e.stores.set store s₁).get store = s₁ := Pool.get_set_self hs s₁
  have hcall : e.readSession store run.sessionId =
      (found, { e.readClock.2 with stores := e.stores.set store s₁ }) := by
    rw [Engine.readSession]
    exact congrArg (fun p => (p.1, { e.readClock.2 with stores := e.stores.set store p.2 })) hread
  unfold persist
  simp only [hw, hcall]
  cases found with
  | error fault => exact ⟨_, _, _, .unread hread, rfl⟩
  | ok found =>
    simp only [Engine.upsertSession, Engine.readClock, hget, set_set]
    exact ⟨_, _, _, .put hread rfl, rfl⟩

end Workflow

end WorkflowEngine
