import WorkflowEngine.Proofs.Session.Records
import WorkflowEngine.Proofs.Store.Statuses

/-!
# Marks of runs in stores

What each call of a run does to the statuses that a store keeps, when the store answers: the
announcement, the beginning and the end of a run mark the run in the record of its session, and
nothing else marks any.
-/

namespace WorkflowEngine.Workflow

open Situation (Kind)

variable {home w : Workflow} {e e' : Engine} {id runId : String}

/-- The store of a workflow. -/
def storeOf (home : Workflow) (e : Engine) : Store :=
  match home.store with
  | some store => e.stores.get store
  | none => default

/-- The status that is kept of a run in the record of a session. -/
def status? (home : Workflow) (id runId : String) (e : Engine) : Option RunStatus :=
  ((home.storeOf e).statuses id).lookup runId

theorem storeOf_eq {store : Ref Store} (h : home.store = some store) (e : Engine) :
    home.storeOf e = e.stores.get store := by
  rw [storeOf, h]

theorem storeOf_set {store : Ref Store} {s : Store} (h : home.store = some store)
    (hlt : store.index < e.stores.items.length) (hs : e'.stores = e.stores.set store s) :
    home.storeOf e' = s := by
  rw [storeOf_eq h, hs]
  exact Pool.get_set_self hlt s

/-- A record of a session was read of the store. -/
theorem read_of_record? {store : Ref Store} {r : SessionRecord} (h : home.store = some store)
    (hr : home.record? id e = some r) :
    ∃ now s, (home.storeOf e).read id now = (.ok (some r), s) := by
  rcases hread : (home.storeOf e).read id e.readClock.1 with ⟨q, s⟩
  rw [storeOf_eq h] at hread
  refine ⟨e.readClock.1, s, ?_⟩
  rw [storeOf_eq h, hread]
  have hq : home.record? id e = q.toOption.join := by
    unfold record? storedSession Engine.readSession
    simp only [h]
    exact congrArg (fun q => q.1.toOption.join) hread
  rw [hq] at hr
  cases q with
  | error fault => cases hr
  | ok found => exact congrArg (fun found => (Except.ok found, s)) hr

/-- What is kept of a run is what a store that answers gives back of it. -/
theorem status_stored? {store : Ref Store} (h : home.store = some store)
    (ha : (home.storeOf e).Answers) :
    (home.stored? id runId e).map WorkflowRun.status = home.status? id runId e := by
  rw [storeOf_eq h] at ha
  obtain ⟨found, s', hread, -⟩ := ha.read id e.readClock.1
  have hrecord : home.record? id e = found := by
    unfold record? storedSession Engine.readSession
    simp only [h]
    exact congrArg (fun q => q.1.toOption.join) hread
  rw [status?, storeOf_eq h, ← (Store.of_read hread).1, stored?, hrecord]
  cases found with
  | none => rfl
  | some r => exact (SessionRecord.lookup_statuses r runId).symm

/-- The session and the store of a workflow are there, and the store answers and is in order. -/
structure Serves (home : Workflow) (e : Engine) : Prop where
  seated : home.Seated e
  store : home.store.isSome = true
  answers : (home.storeOf e).Answers
  filed : (home.storeOf e).Filed

/-- A call that marks no run. -/
structure Unmarked (home : Workflow) (e e' : Engine) : Prop where
  filed : (home.storeOf e').Filed
  status : ∀ id runId, home.status? id runId e' = home.status? id runId e

/-- A call that marks a run with its status in the record of its session. -/
structure Marked (home : Workflow) (run : WorkflowRun) (e e' : Engine) : Prop where
  filed : (home.storeOf e').Filed
  status : ∀ id runId, home.status? id runId e' =
    if id = run.sessionId ∧ runId = run.runId then some run.status else home.status? id runId e

theorem Marked.status_ne {run : WorkflowRun} (h : home.Marked run e e') (hne : runId ≠ run.runId)
    (id : String) : home.status? id runId e' = home.status? id runId e := by
  rw [h.status, if_neg fun heq => hne heq.2]

theorem Serves.unmarked (h : home.Serves e) (hs : home.storeOf e' = home.storeOf e) :
    home.Unmarked e e' :=
  ⟨hs ▸ h.filed, fun id runId => by rw [status?, status?, hs]⟩

theorem Serves.unmarked_of_stores (h : home.Serves e) (hs : e'.stores = e.stores) :
    home.Unmarked e e' :=
  h.unmarked (by rw [storeOf, storeOf, hs])

theorem Serves.ref (h : home.Serves e) : ∃ store, home.store = some store ∧
    store.index < e.stores.items.length := by
  obtain ⟨store, hstore⟩ := Option.isSome_iff_exists.1 h.store
  exact ⟨store, hstore, h.seated.store store hstore⟩

/-- A run that is written to a store that answers is marked. -/
private theorem marked_of_written {store : Ref Store} {run : WorkflowRun} {state : SessionState}
    {q : Except Fault Unit} {s : Store} (hstore : home.store = some store)
    (hlt : store.index < e.stores.items.length) (ha : (home.storeOf e).Answers)
    (hf : (home.storeOf e).Filed) (hw : w.Written run state (e.stores.get store) q s)
    (hs : e'.stores = e.stores.set store s) (ha' : (home.storeOf e').Answers) :
    q = .ok () ∧ home.Marked run e e' := by
  have hget : home.storeOf e' = s := storeOf_set hstore hlt hs
  rw [storeOf_eq hstore] at ha hf
  obtain ⟨hq, hf', hstatus⟩ := hw.statuses ha (hget ▸ ha') hf
  refine ⟨hq, hget ▸ hf', fun id runId => ?_⟩
  rw [status?, status?, hget, storeOf_eq hstore]
  exact hstatus id runId

/-- The preparation of a session marks nothing, and a store that answers lets it come to its end. -/
theorem Serves.prepareSession (h : home.Serves e)
    {r : Except Fault (String × Ref SessionState)} (hp : home.prepareSession e = (r, e')) :
    home.Unmarked e e' ∧ (home.storeOf e').Answers ∧ home.sessionId e' = home.sessionId e ∧
      ∃ committed, r = .ok (home.sessionId e, committed) := by
  obtain ⟨store, hstore, hlt⟩ := h.ref
  have hplace : (∃ fault, r = .error fault) ∨
      home.sessionId e' = home.sessionId e ∧ ∃ committed, r = .ok (home.sessionId e, committed) := by
    rcases session_prepareSession h.seated hp with ⟨fault, rfl, -⟩ | ⟨rfl, hslot⟩
    · exact .inl ⟨fault, rfl⟩
    · exact .inr ⟨by rw [sessionId, hslot]; rfl, _, rfl⟩
  have hans := h.answers
  have hfiled := h.filed
  rw [storeOf_eq hstore] at hans hfiled
  rcases prepareSession_reads hstore hp with ⟨-, rfl, rfl⟩ | ⟨-, q, s, now, readings, hread, hq⟩
  · exact ⟨h.unmarked rfl, h.answers, rfl, _, rfl⟩
  · obtain ⟨found, s', hread', hs'⟩ := hans.read (home.session e).id now
    obtain ⟨rfl, rfl⟩ := Prod.mk.inj (hread'.symm.trans hread)
    have hheld := Store.holding_read hread
    have hstores : e'.stores = e.stores.set store s' := by
      rcases hq with ⟨fault, hfault, -, rfl⟩ | ⟨found, -, -, rfl⟩
      · cases hfault
      · rfl
    have hget : home.storeOf e' = s' := storeOf_set hstore hlt hstores
    have hok : ∀ fault, r ≠ .error fault := by
      rcases hq with ⟨fault, hfault, -, -⟩ | ⟨found, -, rfl, -⟩
      · cases hfault
      · exact nofun
    obtain ⟨hsession, hr⟩ := hplace.resolve_left fun ⟨fault, hr⟩ => hok fault hr
    refine ⟨⟨hget ▸ hfiled.congr hheld, fun id runId => ?_⟩, hget ▸ hs', hsession, hr⟩
    rw [status?, status?, hget, storeOf_eq hstore, Store.statuses_congr hheld]

/-- The announcement of a run marks it as pending in the session at hand, unless it is refused. -/
theorem Serves.announceRun (h : home.Serves e) (hw : home.Shares w) {r : Except Fault String}
    (ha : w.announceRun e = (r, e')) (hans' : (home.storeOf e').Answers) :
    home.sessionId e' = home.sessionId e ∧
    ((∃ fault, r = .error fault) ∧ home.Unmarked e e' ∨
      ∃ runId now, r = .ok runId ∧
        home.Marked (.pending runId (home.sessionId e) w.id w.name now) e e') := by
  obtain ⟨store, hstore, hlt⟩ := h.ref
  rcases announceRun_writes (hw.2.trans hstore) hlt ha with ⟨fault, rfl, rfl⟩ | ⟨fault, rfl, hp⟩ |
    ⟨sessionId, committed, e₁, q, s, readings, hp, hwritten, rfl, rfl⟩
  · exact ⟨rfl, .inl ⟨⟨fault, rfl⟩, h.unmarked rfl⟩⟩
  · rw [hw.prepareSession] at hp
    obtain ⟨-, -, -, committed, hr⟩ := h.prepareSession hp
    cases hr
  · rw [hw.prepareSession] at hp
    have hlt₁ := ((grows_prepareSession hp).seated h.seated).store store hstore
    obtain ⟨hun, hans, hsession, committed', hr⟩ := h.prepareSession hp
    cases hr
    obtain ⟨rfl, hmarked⟩ := marked_of_written hstore hlt₁ hans hun.filed hwritten rfl hans'
    refine ⟨hsession, .inr ⟨_, e₁.readClock.1, rfl, hmarked.filed, fun id runId => ?_⟩⟩
    rw [hmarked.status, hun.status]

theorem Serves.beginRun (h : home.Serves e) (hw : home.Shares w) {input : ExecutionInput}
    {runId : String} {token : Ref CancelToken} {feed : Option (Ref Feed)} {sessionId : String}
    {committed : Ref SessionState} {ctx : RunContext} {run : WorkflowRun} {base : SessionState}
    (hb : w.beginRun input runId token feed sessionId committed e = ((ctx, run, base), e'))
    (hans' : (home.storeOf e').Answers) :
    ctx.runId = runId ∧ ctx.sessionId = sessionId ∧ run.runId = runId ∧
      run.sessionId = sessionId ∧ run.status = .running ∧ home.Marked run e e' := by
  obtain ⟨store, hstore, hlt⟩ := h.ref
  obtain ⟨q, s, now, readings, hwritten, hframe⟩ :=
    beginRun_writes (hw.2.trans hstore) hlt input runId token feed sessionId committed
  have hstores := congrArg (fun r => r.2.stores) (hb.symm.trans hframe)
  obtain ⟨-, hmarked⟩ :=
    marked_of_written hstore hlt h.answers h.filed hwritten hstores hans'
  rw [hframe] at hb
  cases hb
  exact ⟨rfl, rfl, rfl, rfl, rfl, hmarked⟩

theorem Serves.endRun (h : home.Serves e) (hw : home.Shares w) (run : WorkflowRun)
    (fault : Option Fault) (state committed : Ref SessionState) (base : SessionState)
    (hans' : (home.storeOf (w.endRun run fault state committed base e)).Answers) :
    home.Marked run e (w.endRun run fault state committed base e) := by
  obtain ⟨store, hstore, hlt⟩ := h.ref
  obtain ⟨q, s, readings, hwritten, hframe⟩ :=
    endRun_writes (hw.2.trans hstore) hlt run fault state committed base
  exact (marked_of_written hstore hlt h.answers h.filed hwritten
    (congrArg Engine.stores hframe) hans').2

/-- A session that is given a name keeps its runs. -/
theorem Serves.renameSession (h : home.Serves e) {store : Ref Store}
    (hstore : home.store = some store) (sessionId name : String)
    (hans' : (home.storeOf (e.renameSession store sessionId name).2).Answers) :
    home.Unmarked e (e.renameSession store sessionId name).2 := by
  have hlt := h.seated.store store hstore
  have hans := h.answers
  have hfiled := h.filed
  rw [storeOf_eq hstore] at hans hfiled
  have hget : home.storeOf (e.renameSession store sessionId name).2 =
      ((e.stores.get store).rename sessionId name e.readClock.1).2 := storeOf_set hstore hlt rfl
  rw [hget] at hans'
  suffices hsuff : ((e.stores.get store).rename sessionId name e.readClock.1).2.Filed ∧
      ∀ id, ((e.stores.get store).rename sessionId name e.readClock.1).2.statuses id =
        (e.stores.get store).statuses id by
    refine ⟨hget ▸ hsuff.1, fun id runId => ?_⟩
    rw [status?, status?, hget, storeOf_eq hstore, hsuff.2]
  obtain ⟨found, s₁, hread, hs₁⟩ := hans.read sessionId e.readClock.1
  have hheld := Store.holding_read hread
  obtain ⟨hfound, hid⟩ := Store.of_read hread
  rcases Store.rename_cases hread name with hsame | ⟨r, q, hr, hput⟩
  · rw [hsame]
    exact ⟨hfiled.congr hheld, fun id => Store.statuses_congr hheld id⟩
  · obtain rfl := Except.ok.inj hr
    obtain ⟨-, hf₂, hstatuses⟩ := Store.statuses_upsert hs₁ hput hans' (hfiled.congr hheld)
    refine ⟨hf₂, fun id => ?_⟩
    rw [hstatuses]
    split
    · rename_i heq
      rw [heq]
      dsimp only
      rw [hid hfiled r rfl, ← hfound]
      rfl
    · exact Store.statuses_congr hheld id

end WorkflowEngine.Workflow
