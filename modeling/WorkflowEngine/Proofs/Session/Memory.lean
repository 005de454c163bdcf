import WorkflowEngine.Proofs.Session.Records
import WorkflowEngine.Proofs.Workflow.Stories

/-!
# Calls on a session in memory

What each call of a run does to the records of a store in memory: none, or the run is put into the
record of its session. No call fails there.
-/

namespace WorkflowEngine.Workflow

open Situation (Kind)

variable {home w : Workflow} {e e' : Engine} {kind : Kind} {point point' : Point}

/-- A call that leaves the store and the session as they are. -/
structure Leaves (home : Workflow) (e e' : Engine) : Prop where
  memory : home.InMemory e'
  session : home.sessionId e' = home.sessionId e
  record : ∀ id, home.record? id e' = home.record? id e

/-- A call that puts a run into the record of its session. -/
structure Puts (home w : Workflow) (run : WorkflowRun) (e e' : Engine) : Prop where
  memory : home.InMemory e'
  session : home.sessionId e' = home.sessionId e
  others : ∀ id, id ≠ run.sessionId → home.record? id e' = home.record? id e
  record : ∃ state first last, home.record? run.sessionId e' =
    some (w.recordWith run state (home.record? run.sessionId e) first last)

theorem Puts.stored?_self {run : WorkflowRun} (h : home.Puts w run e e') :
    home.stored? run.sessionId run.runId e' = some run := by
  obtain ⟨state, first, last, hrecord⟩ := h.record
  rw [stored?, hrecord]
  exact run?_recordWith_self

/-- The record of a session, if there is one, bears its identifier. -/
def Filed (home : Workflow) (id : String) (e : Engine) : Prop :=
  ∀ r, home.record? id e = some r → r.sessionId = id

theorem InMemory.leaves (h : home.InMemory e) (hslots : e'.slots = e.slots)
    (hstores : e'.stores = e.stores) : home.Leaves e e' where
  memory := h.of_stores hstores
  session := by rw [sessionId, sessionId, session, session, hslots]
  record := fun _ => by
    obtain ⟨store, records, hstore, -, hget⟩ := h
    rw [InMemory.record?_eq hstore hget,
      InMemory.record?_eq hstore ((congrArg (Pool.get · store) hstores).trans hget)]

theorem InMemory.aside (h : home.InMemory e) (hs : home.Seated e') (ho : home.Aside e e') :
    home.Leaves e e' := by
  obtain ⟨store, records, hstore, -, hget⟩ := h
  have hget' : e'.stores.get store = .memory records := (ho.get_store hstore).trans hget
  exact ⟨⟨store, records, hstore, hs.store store hstore, hget'⟩,
    by rw [sessionId, sessionId, session_apart ho.toApart],
    fun id => by rw [InMemory.record?_eq hstore hget, InMemory.record?_eq hstore hget']⟩

theorem InMemory.store (h : home.InMemory e) :
    ∃ store, home.store = some store ∧ store.index < e.stores.items.length := by
  obtain ⟨store, records, hstore, hlt, -⟩ := h
  exact ⟨store, hstore, hlt⟩

theorem InMemory.prepareSession (h : home.InMemory e) (hs : home.Seated e)
    {r : Except Fault (String × Ref SessionState)} (hp : home.prepareSession e = (r, e')) :
    home.Leaves e e' ∧ ∃ committed, r = .ok (home.sessionId e, committed) := by
  obtain ⟨store, records, hstore, hlt, hget⟩ := h
  have hplace : (∃ fault, r = .error fault) ∨
      home.sessionId e' = home.sessionId e ∧ ∃ committed, r = .ok (home.sessionId e, committed) := by
    rcases session_prepareSession hs hp with ⟨fault, rfl, -⟩ | ⟨rfl, hslot⟩
    · exact .inl ⟨fault, rfl⟩
    · exact .inr ⟨by rw [sessionId, hslot]; rfl, _, rfl⟩
  rcases prepareSession_reads hstore hp with ⟨-, rfl, rfl⟩ | ⟨-, q, s, now, readings, hread, hq⟩
  · exact ⟨⟨⟨store, records, hstore, hlt, hget⟩, rfl, fun _ => rfl⟩, _, rfl⟩
  · rw [hget] at hread
    cases hread
    rcases hq with ⟨fault, hq, -, -⟩ | ⟨found, -, rfl, rfl⟩
    · cases hq
    · have hget' : (e.stores.set store (.memory records)).get store = .memory records :=
        Pool.get_set_self hlt _
      obtain ⟨hsession, hplace⟩ := hplace.resolve_left nofun
      refine ⟨⟨⟨store, records, hstore, (Pool.size_set ..).symm ▸ hlt, hget'⟩, hsession,
        fun id => ?_⟩, hplace⟩
      rw [InMemory.record?_eq hstore hget, InMemory.record?_eq hstore hget']

/-- The announcement of a run on a session in memory puts it in as pending, unless it is refused. -/
theorem InMemory.announceRun (h : home.InMemory e) (hs : home.Seated e) (hw : home.Shares w)
    (hf : home.Filed (home.sessionId e) e) {r : Except Fault String}
    (ha : w.announceRun e = (r, e')) :
    e'.journal = e.journal ∧ ((∃ fault, r = .error fault ∧ home.Leaves e e') ∨
      ∃ runId now, r = .ok runId ∧
        home.Puts w (.pending runId (home.sessionId e) w.id w.name now) e e') := by
  obtain ⟨store, hstore, hlt⟩ := h.store
  rcases announceRun_writes (hw.2.trans hstore) hlt ha with ⟨fault, rfl, rfl⟩ | ⟨fault, rfl, hp⟩ |
    ⟨sessionId, committed, e₁, q, s, readings, hp, hwritten, rfl, rfl⟩
  · exact ⟨rfl, .inl ⟨fault, rfl, h, rfl, fun _ => rfl⟩⟩
  · rw [hw.prepareSession] at hp
    obtain ⟨-, committed, hr⟩ := h.prepareSession hs hp
    cases hr
  · rw [hw.prepareSession] at hp
    have hj := journal_prepareSession hp
    obtain ⟨hleaves, committed', hr⟩ := h.prepareSession hs hp
    obtain ⟨rfl, rfl⟩ := Prod.mk.inj (Except.ok.inj hr)
    let run : WorkflowRun :=
      .pending (Ident.ofNat e₁.generated) (home.sessionId e) w.id w.name e₁.readClock.1
    have hf₁ : home.Filed run.sessionId e₁ := fun r hr => hf r (hleaves.record _ ▸ hr)
    let e₂ : Engine :=
      { e₁ with
        stores := e₁.stores.set store s
        readings
        generated := e₁.generated + 1 }
    obtain ⟨rfl, hm', hothers, first, last, hrecord⟩ :=
      hleaves.memory.of_written e₂ hstore hf₁ hwritten rfl
    rw [hleaves.record] at hrecord
    exact ⟨hj, .inr ⟨_, _, rfl, hm', hleaves.session,
      fun id hne => (hothers id hne).trans (hleaves.record id), _, first, last, hrecord⟩⟩

/-- A run that begins on a session in memory is put in as running. -/
theorem InMemory.beginRun (h : home.InMemory e) (hw : home.Shares w) {input : ExecutionInput}
    {runId : String} {token : Ref CancelToken} {feed : Option (Ref Feed)} {sessionId : String}
    {committed : Ref SessionState} {ctx : RunContext} {run : WorkflowRun} {base : SessionState}
    (hf : home.Filed sessionId e)
    (hb : w.beginRun input runId token feed sessionId committed e = ((ctx, run, base), e')) :
    e'.journal = (runId, .began base) :: e.journal ∧ ctx.runId = runId ∧
      ctx.sessionId = sessionId ∧ run.runId = runId ∧ run.sessionId = sessionId ∧
      run.status = .running ∧ home.Puts w run e e' := by
  obtain ⟨store, hstore, hlt⟩ := h.store
  obtain ⟨q, s, now, readings, hwritten, hframe⟩ :=
    beginRun_writes (hw.2.trans hstore) hlt input runId token feed sessionId committed
  have hstores := congrArg (fun r => r.2.stores) (hb.symm.trans hframe)
  obtain ⟨-, hm', hothers, hrecord⟩ := h.of_written e' hstore (by exact hf) hwritten hstores
  rw [hframe] at hb
  cases hb
  exact ⟨rfl, rfl, rfl, rfl, rfl, rfl, hm', rfl, hothers, _, hrecord⟩

/-- A run that ends on a session in memory is put in with its outcome. -/
theorem InMemory.endRun (h : home.InMemory e) (hw : home.Shares w) (run : WorkflowRun)
    (fault : Option Fault) (state committed : Ref SessionState) (base : SessionState)
    (hf : home.Filed run.sessionId e) :
    home.Puts w run e (w.endRun run fault state committed base e) := by
  obtain ⟨store, hstore, hlt⟩ := h.store
  obtain ⟨q, s, readings, hwritten, hframe⟩ :=
    endRun_writes (hw.2.trans hstore) hlt run fault state committed base
  obtain ⟨-, hm', hothers, hrecord⟩ :=
    h.of_written _ hstore hf hwritten (congrArg Engine.stores hframe)
  exact ⟨hm', by rw [hframe]; rfl, hothers, _, hrecord⟩

/-- A session in memory that is given a name keeps everything else. -/
theorem InMemory.renameSession (h : home.InMemory e) {store : Ref Store}
    (hstore : home.store = some store) (sessionId name : String) (hf : home.Filed sessionId e) :
    home.InMemory (e.renameSession store sessionId name).2 ∧ ∀ id,
      home.record? id (e.renameSession store sessionId name).2 = home.record? id e ∨
      ∃ record now, home.record? id e = some record ∧
        home.record? id (e.renameSession store sessionId name).2 =
          some { record with sessionName := some name, updatedAt := now } := by
  obtain ⟨store', records, hstore', hlt, hget⟩ := h
  obtain rfl : store' = store := Option.some.inj (hstore'.symm.trans hstore)
  let now := e.readClock.1
  have hstores : (e.renameSession store' sessionId name).2.stores =
      e.stores.set store' ((Store.memory records).rename sessionId name now).2 := by
    rw [← hget]
    rfl
  rw [Filed, InMemory.record?_eq hstore hget] at hf
  cases hr : records.get? sessionId with
  | none =>
    have hrename : ((Store.memory records).rename sessionId name now).2 = .memory records := by
      simp [Store.rename, Store.read, hr]
    have hget' : (e.renameSession store' sessionId name).2.stores.get store' =
        .memory records := by
      rw [hstores, hrename]
      exact Pool.get_set_self hlt _
    refine ⟨⟨store', records, hstore, ?_, hget'⟩, fun id => .inl ?_⟩
    · rw [hstores]
      exact (Pool.size_set ..).symm ▸ hlt
    · rw [InMemory.record?_eq hstore hget', InMemory.record?_eq hstore hget]
  | some r =>
    let r' : SessionRecord := { r with sessionName := some name, updatedAt := now }
    have hrename : ((Store.memory records).rename sessionId name now).2 =
        .memory (records.insert sessionId r') := by
      simp [Store.rename, Store.read, Store.upsert, hr, r', hf r hr]
    have hget' : (e.renameSession store' sessionId name).2.stores.get store' =
        .memory (records.insert sessionId r') := by
      rw [hstores, hrename]
      exact Pool.get_set_self hlt _
    refine ⟨⟨store', _, hstore, ?_, hget'⟩, fun id => ?_⟩
    · rw [hstores]
      exact (Pool.size_set ..).symm ▸ hlt
    · rw [InMemory.record?_eq hstore hget', InMemory.record?_eq hstore hget, KeyMap.get?_insert]
      split
      · rename_i hid
        exact .inr ⟨r, now, hid ▸ hr, rfl⟩
      · exact .inl rfl

/-! ## Staying in memory -/

/-- A run that is written to a store in memory leaves one in memory. -/
theorem InMemory.written {store : Ref Store} {run : WorkflowRun} {state : SessionState}
    {q : Except Fault Unit} {s : Store} (h : home.InMemory e) (hstore : home.store = some store)
    (hw : w.Written run state (e.stores.get store) q s)
    (hs : e'.stores = e.stores.set store s) : home.InMemory e' := by
  obtain ⟨store', records, hstore', hlt, hget⟩ := h
  obtain rfl : store' = store := Option.some.inj (hstore'.symm.trans hstore)
  rw [hget] at hw
  obtain ⟨records', rfl⟩ : ∃ records', s = .memory records' := by
    cases hw with
    | unread h => cases h
    | put hread hput =>
      cases hread
      cases hput
      exact ⟨_, rfl⟩
  refine ⟨store', records', hstore, ?_, ?_⟩
  · rw [hs]
    exact (Pool.size_set ..).symm ▸ hlt
  · rw [hs]
    exact Pool.get_set_self hlt _

theorem InMemory.passes (h : home.InMemory e) (hs : home.Seated e)
    (hp : home.Passes point e point' e') : home.InMemory e' := by
  obtain ⟨store, hstore, hlt⟩ := h.store
  cases hp with
  | call => exact h.of_stores rfl
  | refuse hp => exact (h.prepareSession hs hp).1.memory
  | enter hp => exact (h.prepareSession hs hp).1.memory
  | @begin w input runId token feed sessionId committed _ _ _ _ _ hw hb =>
    obtain ⟨q, s, now, readings, hwritten, hframe⟩ :=
      beginRun_writes (hw.2.trans hstore) hlt input runId token feed sessionId committed
    exact h.written hstore hwritten (congrArg (fun r => r.2.stores) (hb.symm.trans hframe))
  | work ht => exact h.of_stores ht.stores
  | @leave w ctx committed base _ run fault hw hrun hterminal =>
    obtain ⟨q, s, readings, hwritten, hframe⟩ :=
      endRun_writes (hw.2.trans hstore) hlt run fault ctx.state committed base
    exact h.written hstore hwritten (congrArg Engine.stores hframe)
  | tell ht => exact h.of_stores ht.stores

theorem InMemory.call {started : List Point} (h : home.InMemory e) (hs : home.Seated e)
    (hc : home.Call kind e started e') : home.InMemory e' := by
  obtain ⟨store, hstore, hlt⟩ := h.store
  have hc' := hc.grows
  have hannounce {w : Workflow} {r : Except Fault String} (hw : home.Shares w)
      (ha : w.announceRun e = (r, e')) : home.InMemory e' := by
    rcases announceRun_writes (hw.2.trans hstore) hlt ha with ⟨fault, rfl, rfl⟩ |
      ⟨fault, rfl, hp⟩ | ⟨sessionId, committed, e₁, q, s, readings, hp, hwritten, rfl, rfl⟩
    · exact h
    · exact (h.prepareSession hs (hw.prepareSession e ▸ hp)).1.memory
    · have h₁ := (h.prepareSession hs (hw.prepareSession e ▸ hp)).1.memory
      exact h₁.written hstore hwritten rfl
  cases hc with
  | run => exact h
  | stream => exact h.of_stores rfl
  | spawn hw ha => exact hannounce hw ha
  | refuse hw ha => exact hannounce hw ha
  | other ho => exact (h.aside (hc'.seated hs) ho).memory
  | @rename _ store' hstore' sessionId name =>
    obtain ⟨place, records, heq, -, hget⟩ := h
    obtain rfl : place = store' := Option.some.inj (heq.symm.trans hstore')
    obtain ⟨records', hrename⟩ : ∃ records',
        ((Store.memory records).rename sessionId name e.readClock.1).2 = .memory records' := by
      unfold Store.rename
      simp only [Store.read]
      cases records.get? sessionId <;> exact ⟨_, rfl⟩
    have hget' := Pool.get_set_self (hs.store place hstore')
      ((e.stores.get place).rename sessionId name e.readClock.1).2
    rw [hget, hrename] at hget'
    refine ⟨place, records', hstore', (hc'.seated hs).store place hstore', ?_⟩
    rw [← hget', ← hrename, ← hget]
    rfl
  | fresh => exact h.of_stores rfl
  | attach sessionId => exact h.of_stores rfl

/-- Whatever happens, a store in memory stays one. -/
theorem InMemory.turn {points points' : List Point} (h : home.InMemory e) (hs : home.Seated e)
    (ht : home.Turn kind e points e' points') : home.InMemory e' := by
  cases ht with
  | call hc => exact h.call hs hc
  | pass hp => exact h.passes hs hp
  | abort ha =>
    cases ha with
    | work ht => exact h.of_stores ht.stores
    | again => exact h

end WorkflowEngine.Workflow
