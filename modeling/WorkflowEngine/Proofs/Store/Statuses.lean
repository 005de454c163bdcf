import WorkflowEngine.Proofs.Store.Writing

/-!
# What stores tell of runs

The status of every run that a store keeps in the record of a session. A store that does what it is
called for and gives back what was written tells of a run what was last written of it, and every
write leaves all other runs as they are.
-/

namespace WorkflowEngine

namespace SessionRecord

/-- The runs with their statuses, in order. -/
def statuses (record : SessionRecord) : List (String × RunStatus) :=
  record.runs.map fun run => (run.runId, run.status)

theorem lookup_statuses (record : SessionRecord) (runId : String) :
    record.statuses.lookup runId = (record.run? runId).map WorkflowRun.status := by
  unfold statuses run?
  induction record.runs with
  | nil => rfl
  | cons run rest ih =>
    rw [List.map_cons, List.lookup_cons, List.find?_cons, ih]
    by_cases h : runId = run.runId
    · simp [h]
    · simp [beq_eq_false_iff_ne.2 h, beq_eq_false_iff_ne.2 (Ne.symm h)]

theorem lookup_statuses_upsertRun (record : SessionRecord) (run : WorkflowRun) (now : Instant)
    (runId : String) : (record.upsertRun run now).statuses.lookup runId =
      if runId = run.runId then some run.status else record.statuses.lookup runId := by
  unfold upsertRun statuses
  dsimp only
  induction record.runs with
  | nil =>
    by_cases h : runId = run.runId
    · simp [putRun, h]
    · simp [putRun, h, List.lookup_cons, beq_eq_false_iff_ne.2 h]
  | cons r rest ih =>
    rw [putRun]
    split
    · rename_i hr
      by_cases h : runId = run.runId
      · simp [h]
      · simp [h, List.lookup_cons, hr, beq_eq_false_iff_ne.2 h]
    · rename_i hr
      rw [List.map_cons, List.map_cons, List.lookup_cons, List.lookup_cons, ih]
      by_cases h : runId = r.runId
      · subst h
        simp [hr]
      · simp [beq_eq_false_iff_ne.2 h]

end SessionRecord

namespace Held

def sessionId : Held → String
  | record r => r.sessionId
  | row r => r.sessionId

/-- The runs with their statuses; none if they cannot be read. -/
def statuses : Held → List (String × RunStatus)
  | record r => r.statuses
  | row r => (r.runs?.getD []).map fun run => (run.runId, run.status)

theorem sessionId_of {r : SessionRecord} {held : Held} (h : held.Of r) :
    held.sessionId = r.sessionId := by
  cases h <;> rfl

/-- What is read of it has its session and its runs. -/
theorem of_read {now : Instant} {held : Held} {r : SessionRecord} (h : held.read now = .ok r) :
    r.sessionId = held.sessionId ∧ r.statuses = held.statuses := by
  cases held with
  | record r' =>
    cases h
    exact ⟨rfl, rfl⟩
  | row row =>
    obtain ⟨hid, -, -, -, hruns⟩ := SessionRow.of_toRecord h
    exact ⟨hid, by simp [statuses, SessionRecord.statuses, hruns]⟩

end Held

namespace Store

variable {s s' : Store} {id : String} {now : Instant}

/-- What is kept for a session bears its identifier. -/
def Filed (s : Store) : Prop := ∀ id held, s.holding id = some held → held.sessionId = id

/-- The runs that are kept for a session with their statuses. -/
def statuses (s : Store) (id : String) : List (String × RunStatus) :=
  ((s.holding id).map Held.statuses).getD []

/-- A store that does what it is called for, and gives back the runs that were written. -/
structure Answers (s : Store) : Prop where
  willing : ∀ refusals reads upserts records, s = refusing refusals reads upserts records →
    refusals = {}
  legible : ∀ id held, s.holding id = some held →
    (∀ now, ∃ r, held.read now = .ok r) ∧ ∀ r, held.Of r → held.statuses = r.statuses

theorem answers_memory (records : KeyMap SessionRecord) : (memory records).Answers := by
  refine ⟨nofun, fun id held h => ?_⟩
  unfold holding at h
  obtain ⟨record, -, rfl⟩ := Option.map_eq_some_iff.1 h
  exact ⟨fun now => ⟨record, rfl⟩, fun r h => by cases h; rfl⟩

/-- What a store that answers does when a session is read. -/
theorem Answers.read (h : s.Answers) (id : String) (now : Instant) :
    ∃ found s', s.read id now = (.ok found, s') ∧ s'.Answers := by
  have hcongr {s' : Store} (hw : ∀ refusals reads upserts records,
      s' = refusing refusals reads upserts records → refusals = {})
      (heq : ∀ id, s'.holding id = s.holding id) : s'.Answers :=
    ⟨hw, fun id held hheld => h.legible id held (heq id ▸ hheld)⟩
  cases s with
  | memory records => exact ⟨_, _, rfl, h⟩
  | table rows =>
    unfold Store.read
    dsimp only
    cases hrow : rows.find? (·.sessionId == id) with
    | none => exact ⟨none, _, rfl, h⟩
    | some row =>
      obtain ⟨r, hr⟩ := (h.legible id (.row row) (by simp [holding, hrow])).1 now
      have hrecord : row.toRecord now = .ok r := hr
      exact ⟨some r, _, by simp [hrecord, Except.map], h⟩
  | refusing refusals reads upserts records =>
    obtain rfl := h.willing refusals reads upserts records rfl
    refine ⟨records.get? id, refusing {} (reads + 1) upserts records, by simp [Store.read], ?_⟩
    refine hcongr ?_ fun _ => rfl
    rintro _ _ _ _ ⟨⟩
    rfl

/-- A store that answers takes every record. -/
theorem Answers.upsert (h : s.Answers) (r : SessionRecord) : (s.upsert r).1 = .ok r := by
  cases s with
  | memory records => rfl
  | table rows => rfl
  | refusing refusals reads upserts records =>
    obtain rfl := h.willing refusals reads upserts records rfl
    simp [Store.upsert]

/-- What is read of a session has the runs that are kept for it. -/
theorem of_read {found : Option SessionRecord} (h : s.read id now = (.ok found, s')) :
    (found.map SessionRecord.statuses).getD [] = s.statuses id ∧
      (s.Filed → ∀ r, found = some r → r.sessionId = id) := by
  unfold statuses
  rcases read_of_holding h with ⟨hnone, rfl⟩ | ⟨held, r, hheld, rfl, hr⟩
  · rw [hnone]
    exact ⟨rfl, fun _ _ h => nomatch h⟩
  · rw [hheld]
    obtain ⟨hid, hstatuses⟩ := held.of_read hr
    refine ⟨hstatuses, fun hf r' hr' => ?_⟩
    cases hr'
    exact hid.trans (hf id held hheld)

theorem statuses_congr (h : ∀ id, s'.holding id = s.holding id) (id : String) :
    s'.statuses id = s.statuses id := by
  rw [statuses, statuses, h]

theorem Filed.congr (hf : s.Filed) (h : ∀ id, s'.holding id = s.holding id) : s'.Filed :=
  fun id held hheld => hf id held (h id ▸ hheld)

/-- A record that was put into a store that answers is kept for its session, with its runs. -/
theorem statuses_upsert {r : SessionRecord} {q : Except Fault SessionRecord} (hs : s.Answers)
    (h : s.upsert r = (q, s')) (hs' : s'.Answers) (hf : s.Filed) :
    q = .ok r ∧ s'.Filed ∧
      ∀ id, s'.statuses id = if id = r.sessionId then r.statuses else s.statuses id := by
  have hq := hs.upsert r
  rw [h] at hq
  rcases holding_upsert h with ⟨fault, hfault, -⟩ | ⟨-, held, hof, hheld⟩
  · cases hfault.symm.trans hq
  · refine ⟨hq, fun id held' hid => ?_, fun id => ?_⟩
    · rw [hheld] at hid
      split at hid
      · rename_i heq
        cases hid
        exact (Held.sessionId_of hof).trans heq.symm
      · exact hf id held' hid
    · rw [statuses, hheld]
      split
      · have hself : s'.holding r.sessionId = some held := by rw [hheld, if_pos rfl]
        exact (hs'.legible _ _ hself).2 r hof
      · rfl

end Store

/-- A run that was written to a store that answers has its status there in the record of its
session. Everything else is as it was. -/
theorem Workflow.Written.statuses {w : Workflow} {run : WorkflowRun} {state : SessionState}
    {s s' : Store} {q : Except Fault Unit} (h : w.Written run state s q s') (hs : s.Answers)
    (hs' : s'.Answers) (hf : s.Filed) :
    q = .ok () ∧ s'.Filed ∧ ∀ id runId, (s'.statuses id).lookup runId =
      if id = run.sessionId ∧ runId = run.runId then some run.status
      else (s.statuses id).lookup runId := by
  cases h with
  | unread h =>
    obtain ⟨found, s₁, hread, -⟩ := hs.read run.sessionId _
    cases (Prod.mk.inj (h.symm.trans hread)).1
  | @put now first last found s₁ _ q hread hput =>
    obtain ⟨found', s₁', hread', hs₁⟩ := hs.read run.sessionId now
    obtain ⟨-, rfl⟩ := Prod.mk.inj (hread'.symm.trans hread)
    have hheld := Store.holding_read hread
    obtain ⟨hfound, hid⟩ := Store.of_read hread
    obtain ⟨rfl, hf', hstatuses⟩ :=
      Store.statuses_upsert hs₁ hput hs' (hf.congr hheld)
    have hsession : (w.recordWith run state found first last).sessionId = run.sessionId :=
      sessionId_recordWith (hid hf)
    refine ⟨rfl, hf', fun id runId => ?_⟩
    rw [hstatuses, hsession]
    by_cases hsame : id = run.sessionId
    · subst hsame
      have hold : (found.getD (SessionRecord.new run.sessionId w.id w.name first)).statuses =
          s.statuses run.sessionId := by
        rw [← hfound]
        cases found <;> rfl
      rw [if_pos rfl, ← hold]
      unfold recordWith
      rw [SessionRecord.lookup_statuses_upsertRun]
      by_cases hrun : runId = run.runId <;> simp [hrun, SessionRecord.statuses]
    · simp [hsame, Store.statuses_congr hheld]

end WorkflowEngine
