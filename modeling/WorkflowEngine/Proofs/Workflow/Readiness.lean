import WorkflowEngine.Proofs.Session.Ledgers
import WorkflowEngine.Proofs.Store.Contents
import WorkflowEngine.Proofs.Store.Keeping
import WorkflowEngine.Proofs.Workflow.Writes

/-!
# Readiness for a run

How an engine stands to a run of a workflow from the preparation of its session to the end of its work: the
committed state is the one that the run begins on, and the store can be read and written. Main statements:
this is so once the session is prepared and still so when the run has begun; and the end of the run leaves
the committed state that is to be expected, in the store too.
-/

namespace WorkflowEngine

/-- A record that is written leaves a store of the same kind. -/
theorem Workflow.Written.isTable {w : Workflow} {run : WorkflowRun} {state : SessionState}
    {s s' : Store} {q : Except Fault Unit} (h : w.Written run state s q s') :
    s'.isTable = s.isTable := by
  cases h with
  | unread h => exact Store.isTable_read h
  | put hread hput => exact (Store.isTable_upsert hput).trans (Store.isTable_read hread)

/-- What is written to a working store is read and put there. -/
private theorem Store.Working.put {w : Workflow} {run : WorkflowRun} {state : SessionState}
    {s s' : Store} {q : Except Fault Unit} (hs : s.Working run.sessionId)
    (h : w.Written run state s q s') :
    q = .ok () ∧ ∃ (first last : Instant) (found : Option SessionRecord) (r : SessionRecord)
      (s₁ : Store), (∀ r, found = some r → r.sessionId = run.sessionId) ∧
        s₁.upsert (w.recordWith run state found first last) = (.ok r, s') := by
  cases h with
  | @unread now fault _ h =>
    obtain ⟨found, s₁, hread, -⟩ := hs now
    rw [h] at hread
    cases hread
  | @put now first last found s₁ _ q hread hput =>
    obtain ⟨found', s₁', hread', hid, htakes⟩ := hs now
    obtain ⟨hfound, rfl⟩ := Prod.mk.inj (hread.symm.trans hread')
    obtain rfl : found = found' := Except.ok.inj hfound
    obtain ⟨r, s'', hupsert⟩ := htakes (w.recordWith run state found first last)
    obtain ⟨rfl, rfl⟩ := Prod.mk.inj (hput.symm.trans hupsert)
    exact ⟨rfl, first, last, found, r, s₁, hid, hput⟩

/-- A working store holds the run that was written to it, in a record with the state. -/
theorem Store.Working.holding {w : Workflow} {run : WorkflowRun} {state : SessionState}
    {s s' : Store} {q : Except Fault Unit} (hs : s.Working run.sessionId)
    (h : w.Written run state s q s') :
    ∃ r held, s'.holding run.sessionId = some held ∧ held.Of r ∧ r.state = state := by
  obtain ⟨-, first, last, found, r, s₁, hid, hput⟩ := hs.put h
  rcases holding_upsert hput with ⟨fault, hr, -⟩ | ⟨-, held, hof, hheld⟩
  · cases hr
  · refine ⟨_, held, ?_, hof, rfl⟩
    rw [hheld, if_pos (Workflow.sessionId_recordWith hid).symm]

/-- Tables keep rows, and only they. -/
theorem Store.isRow_of_holding {s : Store} {id : String} {held : Held} (h : s.holding id = some held) :
    held.isRow = s.isTable := by
  cases s with
  | memory records | table rows | refusing refusals reads upserts records =>
    obtain ⟨r, -, rfl⟩ := Option.map_eq_some_iff.1 h
    rfl

/-- A moment later: no time has passed, and the clock was read a few times. -/
structure Engine.Moment (e d : Engine) : Prop where
  start : d.start = e.start
  now : d.now = e.now
  readings : d.readings ≤ e.readings + 5

namespace Workflow

/-- The state that a run begins on. -/
def base (w : Workflow) (e : Engine) : SessionState := w.sessionState (w.prepareSession e).2

/-- What the store keeps as the state of the session. -/
def storedState (w : Workflow) (e : Engine) : Option SessionState :=
  w.store.bind fun store => ((e.stores.get store).holding (w.sessionId e)).bind Held.state?

/-- A run as it begins. -/
def opening (w : Workflow) (input : ExecutionInput) (e : Engine) (now : Instant) : WorkflowRun :=
  { WorkflowRun.pending e.freshId.1 (w.sessionId e) w.id w.name now with
    status := .running
    media := input.media }

/-- A run as it is written before it works. -/
inductive Opens (w : Workflow) (input : ExecutionInput) (e : Engine) : WorkflowRun → Prop
  | announced {d : Engine} (h : e.Moment d) :
      Opens w input e (.pending e.freshId.1 (w.sessionId e) w.id w.name d.readClock.1)
  | begun {d : Engine} (h : e.Moment d) : Opens w input e (w.opening input e d.readClock.1)

/-- Stores that can be read and written when a run begins, however often. -/
structure Accepts (w : Workflow) (input : ExecutionInput) (e : Engine) (P : Store → Prop) : Prop where
  works : ∀ s, P s → s.Working (w.sessionId e)
  read : ∀ s now q s', P s → s.read (w.sessionId e) now = (q, s') → P s'
  written : ∀ s run q s', P s → w.Opens input e run → w.Written run (w.base e) s q s' → P s'

/-- The store of a workflow takes every call of a run. -/
def StoreTakes (w : Workflow) (input : ExecutionInput) (e : Engine) : Prop :=
  ∃ P, w.Accepts input e P ∧ ∀ store, w.store = some store → P (e.stores.get store)

/-! ## Stores that take the calls of a run -/

section Stores

variable {w : Workflow} {e : Engine} {store : Ref Store}

/-- There is nothing to take without a store. -/
theorem storeTakes_of_none (input : ExecutionInput) (hw : w.store = none) : w.StoreTakes input e := by
  refine ⟨fun _ => False, ⟨fun _ h => h.elim, fun _ _ _ _ h => h.elim, fun _ _ _ _ h => h.elim⟩,
    fun store hstore => ?_⟩
  rw [hw] at hstore
  cases hstore

/-- A store in memory takes every call. -/
theorem storeTakes_of_memory (input : ExecutionInput) {records : KeyMap SessionRecord}
    (hw : w.store = some store) (hget : e.stores.get store = .memory records)
    (hid : ∀ r, records.get? (w.sessionId e) = some r → r.sessionId = w.sessionId e) :
    w.StoreTakes input e := by
  refine ⟨fun s => ∃ records : KeyMap SessionRecord, s = .memory records ∧
    ∀ r, records.get? (w.sessionId e) = some r → r.sessionId = w.sessionId e, ⟨?_, ?_, ?_⟩, ?_⟩
  · rintro _ ⟨records, rfl, hid⟩ now
    exact ⟨_, _, rfl, hid, fun r => ⟨r, _, rfl⟩⟩
  · rintro _ now q s' ⟨records, rfl, hid⟩ hread
    cases hread
    exact ⟨records, rfl, hid⟩
  · rintro _ run q s' ⟨records, rfl, hid⟩ ho hwritten
    have hrun : run.sessionId = w.sessionId e := by cases ho <;> rfl
    cases hwritten with
    | unread hread => cases hread
    | put hread hput =>
      cases hread
      cases hput
      rename_i now first last
      refine ⟨_, rfl, fun r hr => ?_⟩
      have hsession : (w.recordWith run (w.base e) (records.get? run.sessionId) first last).sessionId =
          run.sessionId := sessionId_recordWith (hrun.symm ▸ hid)
      rw [hsession, hrun, KeyMap.get?_insert, if_pos rfl] at hr
      cases hr
      rw [← hrun]
      exact hsession
  · intro store' hstore
    obtain rfl : store = store' := Option.some.inj (hw.symm.trans hstore)
    exact ⟨records, hget, hid⟩

/-- A table that can be read takes every call, if it can hold the state that the run begins on. -/
theorem storeTakes_of_table (input : ExecutionInput) {rows : List SessionRow}
    (hw : w.store = some store) (hget : e.stores.get store = .table rows)
    (hrows : SessionRow.Legible (w.sessionId e) rows) (hbase : (w.base e).Storable)
    (hclock : ∀ d, e.Moment d → d.readClock.1.Valid) : w.StoreTakes input e := by
  refine ⟨fun s => ∃ rows, s = .table rows ∧ SessionRow.Legible (w.sessionId e) rows,
    ⟨?_, ?_, ?_⟩, ?_⟩
  · rintro _ ⟨rows, rfl, hrows⟩ now
    obtain ⟨found, hread, hid, -⟩ := hrows.read (w.sessionId e) now
    exact ⟨found, _, hread, hid, fun r => ⟨r, _, rfl⟩⟩
  · rintro _ now q s' ⟨rows, rfl, hrows⟩ hread
    obtain ⟨found, hread', -⟩ := hrows.read (w.sessionId e) now
    cases hread'.symm.trans hread
    exact ⟨rows, rfl, hrows⟩
  · rintro _ run q s' ⟨rows, rfl, hrows⟩ ho hwritten
    have hrun : run.sessionId = w.sessionId e := by cases ho <;> rfl
    have hstorable : run.Storable := by
      cases ho with
      | announced h => exact WorkflowRun.Bare.storable ⟨nofun, rfl, rfl, rfl⟩ (hclock _ h)
      | begun h => exact WorkflowRun.Bare.storable ⟨nofun, rfl, rfl, rfl⟩ (hclock _ h)
    obtain ⟨-, rows', rfl, hrows', -⟩ := hwritten.legible (hrun ▸ hrows) hstorable hbase
    exact ⟨rows', rfl, hrun ▸ hrows'⟩
  · intro store' hstore
    obtain rfl : store = store' := Option.some.inj (hw.symm.trans hstore)
    exact ⟨rows, hget, hrows⟩

end Stores

/-- An engine on which a run that was called for on another one can begin or is at work. -/
structure Ready (w : Workflow) (e : Engine) (P : Store → Prop) (d : Engine) : Prop where
  session : w.session d = { w.session e with loaded := true }
  seated : w.Seated d
  base : w.sessionState d = w.base e
  stores : ∀ store, w.store = some store →
    P (d.stores.get store) ∧ (d.stores.get store).isTable = (e.stores.get store).isTable

variable {w : Workflow} {input : ExecutionInput} {e d d' : Engine} {P : Store → Prop}

theorem Ready.congr (h : w.Ready e P d) (hslots : d'.slots = d.slots) (hstates : d'.states = d.states)
    (hstores : d'.stores = d.stores) : w.Ready e P d' := by
  have hsession : w.session d' = w.session d := by rw [Workflow.session, hslots, Workflow.session]
  refine ⟨hsession.trans h.session, ⟨hslots ▸ h.seated.slot, ?_, hstores ▸ h.seated.store⟩, ?_, ?_⟩
  · rw [hsession, hstates]
    exact h.seated.state
  · rw [← h.base, sessionState, hsession, hstates, sessionState]
  · rw [hstores]
    exact h.stores

/-- The work of a run leaves the engine ready. -/
theorem Ready.acts {ctx : RunContext} {t : List Happening} (h : w.Ready e P d)
    (hctx : ctx.state ≠ (w.session e).state) (ha : ctx.Acts d t d') : w.Ready e P d' := by
  have hsession : w.session d' = w.session d := by rw [Workflow.session, ha.slots, Workflow.session]
  refine ⟨hsession.trans h.session, (grows_acts ha).seated h.seated, ?_, ?_⟩
  · have hne : (w.session d).state ≠ ctx.state := by
      rw [h.session]
      exact hctx.symm
    rw [← h.base, sessionState, hsession, Pool.get, ha.states _ hne]
    rfl
  · rw [ha.stores]
    exact h.stores

/-- Nothing but the session, the states, the store and the clock matters to the preparation of a
session. -/
theorem prepareSession_congr (tokens : Pool CancelToken) (generated : Nat) (feeds : Pool Feed)
    (outcomes : Pool Outcome) :
    w.prepareSession { e with tokens, generated, feeds, outcomes } =
      ((w.prepareSession e).1, { (w.prepareSession e).2 with tokens, generated, feeds, outcomes }) := by
  have hsession : w.session { e with tokens, generated, feeds, outcomes } = w.session e := rfl
  unfold prepareSession storedSession
  simp only [hsession]
  split
  · rfl
  · cases w.store with
    | none => rfl
    | some store =>
      simp only [Engine.readSession, Engine.readClock]
      generalize (e.stores.get store).read _ _ = r
      obtain ⟨found, s⟩ := r
      cases found with
      | error fault => rfl
      | ok found => cases found <;> rfl

/-- A session that is loaded is prepared. -/
theorem prepareSession_loaded (hl : (w.session e).loaded = true) :
    w.prepareSession e = (.ok ((w.session e).id, (w.session e).state), e) := by
  unfold prepareSession
  dsimp only
  rw [if_pos hl]

/-- What the preparation of a session leaves alone. It reads the clock once at most. -/
structure Prepared (e d : Engine) : Prop where
  start : d.start = e.start
  now : d.now = e.now
  readings : d.readings ≤ e.readings + 1
  size : d.states.items.length = e.states.items.length
  tallies : d.tallies = e.tallies
  tokens : d.tokens = e.tokens
  feeds : d.feeds = e.feeds
  generated : d.generated = e.generated

private theorem prepared_prepareSession {r : Except Fault (String × Ref SessionState)}
    (h : w.prepareSession e = (r, d)) : Prepared e d := by
  have hreadings : d.readings ≤ e.readings + 1 := by
    have hle := readings_prepareSession_le w e
    rwa [h] at hle
  rcases prepareSession_cases w e h with ⟨-, -, rfl⟩ |
    ⟨-, ⟨fault, stores, readings, -, -, rfl⟩ | ⟨found, stores, readings, -, -, rfl⟩⟩
  · exact ⟨rfl, rfl, hreadings, rfl, rfl, rfl, rfl, rfl⟩
  · exact ⟨rfl, rfl, hreadings, rfl, rfl, rfl, rfl, rfl⟩
  · refine ⟨rfl, rfl, hreadings, ?_, rfl, rfl, rfl, rfl⟩
    cases found with
    | none => rfl
    | some record => exact Pool.size_set ..

/-- The preparation of a session reads its store. -/
private theorem store_prepareSession {store : Ref Store} (hw : w.store = some store)
    (hs : store.index < e.stores.items.length) (hsv : w.Accepts input e P)
    (hst : P (e.stores.get store)) {r : Except Fault (String × Ref SessionState)}
    (h : w.prepareSession e = (r, d)) :
    (∃ place, r = .ok place) ∧ P (d.stores.get store) ∧
      (d.stores.get store).isTable = (e.stores.get store).isTable := by
  rcases prepareSession_reads hw h with ⟨-, rfl, rfl⟩ | ⟨-, q, s, now, readings, hread, hd⟩
  · exact ⟨⟨_, rfl⟩, hst, rfl⟩
  · have hget : (e.stores.set store s).get store = s := Pool.get_set_self hs s
    have hP : P s := hsv.read _ now q s hst hread
    have htable : s.isTable = (e.stores.get store).isTable := Store.isTable_read hread
    rcases hd with ⟨fault, rfl, rfl, rfl⟩ | ⟨found, rfl, rfl, rfl⟩
    · obtain ⟨found, s', hfound, -⟩ := hsv.works _ hst now
      rw [sessionId, hread] at hfound
      cases hfound
    · exact ⟨⟨_, rfl⟩, hget.symm ▸ hP, hget.symm ▸ htable⟩

/-- Once its session is prepared, an engine is ready for a run. -/
theorem prepareSession_ready (hs : w.Seated e) (hsv : w.Accepts input e P)
    (hst : ∀ store, w.store = some store → P (e.stores.get store)) :
    ∃ d, w.prepareSession e = (.ok ((w.session e).id, (w.session e).state), d) ∧
      w.Ready e P d ∧ Prepared e d := by
  rcases hp : w.prepareSession e with ⟨r, d⟩
  have hstore (store : Ref Store) (hw : w.store = some store) :=
    store_prepareSession hw (hs.store store hw) hsv (hst store hw) hp
  rcases session_prepareSession hs hp with ⟨fault, rfl, -⟩ | ⟨rfl, hsession⟩
  · exfalso
    cases hw : w.store with
    | some store =>
      obtain ⟨⟨place, hplace⟩, -⟩ := hstore store hw
      cases hplace
    | none =>
      rcases prepareSession_cases w e hp with ⟨-, hr, -⟩ |
        ⟨-, ⟨fault', -, -, hfault, -⟩ | ⟨-, -, -, -, hr, -⟩⟩
      · cases hr
      · simp [storedSession, hw] at hfault
      · cases hr
  · refine ⟨d, rfl, ⟨hsession, (grows_prepareSession hp).seated hs, ?_, fun store hw => ?_⟩,
      prepared_prepareSession hp⟩
    · rw [base, hp]
    · exact (hstore store hw).2

theorem Prepared.moment (h : Prepared e d) : e.Moment d :=
  ⟨h.start, h.now, Nat.le_trans h.readings (Nat.add_le_add_left (by decide) _)⟩

theorem Ready.committed (h : w.Ready e P d) : d.states.get (w.session e).state = w.base e := by
  rw [← h.base, sessionState, h.session]

theorem Ready.place (h : w.Ready e P d) : (w.session e).state.index < d.states.items.length := by
  have hseated := h.seated.state
  rwa [h.session] at hseated

/-- A run that is about to work is written. -/
private theorem persist_ready (hr : w.Ready e P d) (hsv : w.Accepts input e P) {run : WorkflowRun}
    (ho : w.Opens input e run) :
    ∃ stores readings, w.persist run (w.session e).state d = (.ok (), { d with stores, readings }) ∧
      w.Ready e P { d with stores, readings } := by
  cases hw : w.store with
  | none =>
    refine ⟨d.stores, d.readings, ?_, hr⟩
    unfold persist
    rw [hw]
  | some store =>
    have hindex := hr.seated.store store hw
    obtain ⟨hP, htable⟩ := hr.stores store hw
    obtain ⟨q, s, readings, hwritten, hpersist⟩ := persist_written run (w.session e).state hw hindex
    rw [hr.committed] at hwritten
    have hget : (d.stores.set store s).get store = s := Pool.get_set_self hindex s
    have hid : run.sessionId = w.sessionId e := by cases ho <;> rfl
    have hworks : (d.stores.get store).Working run.sessionId := hid ▸ hsv.works _ hP
    obtain ⟨rfl, -⟩ := hworks.put hwritten
    refine ⟨_, readings, hpersist, hr.session, ⟨hr.seated.slot, hr.seated.state, ?_⟩, hr.base, ?_⟩
    · intro store' hw'
      rw [Pool.size_set]
      exact hr.seated.store store' hw'
    · intro store' hw'
      obtain rfl : store = store' := Option.some.inj (hw.symm.trans hw')
      dsimp only
      rw [hget]
      exact ⟨hsv.written _ run _ s hP ho hwritten, hwritten.isTable.trans htable⟩

/-- A run that is announced is written, and the engine is ready for it. -/
theorem announceRun_ready (hs : w.Seated e) (hsv : w.Accepts input e P)
    (hst : ∀ store, w.store = some store → P (e.stores.get store)) (hv : w.validate = .ok ()) :
    ∃ d, w.announceRun e = (.ok e.freshId.1, d) ∧ w.Ready e P d ∧ e.Moment d ∧
      d.states.items.length = e.states.items.length ∧ d.tallies = e.tallies ∧
      d.tokens = e.tokens := by
  obtain ⟨d, hp, hr, hd⟩ := prepareSession_ready hs hsv hst
  have hid : d.freshId.1 = e.freshId.1 := congrArg Ident.ofNat hd.generated
  have hr' : w.Ready e P d.freshId.2.readClock.2 := hr.congr rfl rfl rfl
  obtain ⟨stores, readings, hpersist, hready⟩ :=
    persist_ready hr' hsv (.announced hd.moment)
  have hle := readings_persist_le w d.freshId.2.readClock.2
    (.pending e.freshId.1 (w.sessionId e) w.id w.name d.readClock.1) (w.session e).state
  rw [hpersist] at hle
  have hmoment : readings ≤ e.readings + 5 :=
    Nat.le_trans hle (Nat.add_le_add_right (Nat.succ_le_succ hd.readings) 3)
  rw [sessionId] at hpersist
  have hclock : d.freshId.2.readClock.1 = d.readClock.1 := rfl
  unfold announceRun
  simp only [hv, hp, hid, hclock, hpersist]
  exact ⟨_, rfl, hready, ⟨hd.start, hd.now, hmoment⟩, hd.size, hd.tallies, hd.tokens⟩

/-- A run begins on a ready engine, on the committed state. -/
theorem beginRun_ready (hr : w.Ready e P d) (hm : e.Moment d) (hsv : w.Accepts input e P)
    (token : Ref CancelToken)
    (feed : Option (Ref Feed)) :
    ∃ now b, w.beginRun input e.freshId.1 token feed (w.sessionId e) (w.session e).state d =
        (({ sessionId := w.sessionId e, runId := e.freshId.1, state := ⟨d.states.items.length⟩,
            token, feed, bus := w.bus, stepDefaults := w.stepDefaults },
          w.opening input e now, w.base e), b) ∧
      w.Ready e P b ∧ b.states.get? ⟨d.states.items.length⟩ = some (w.base e) ∧
      b.tallies = d.tallies ∧ b.feeds = d.feeds ∧ b.outcomes = d.outcomes := by
  let begun := ((d.note e.freshId.1 (.began (w.base e))).addState (w.base e)).2.readClock
  have hready : w.Ready e P begun.2 := by
    refine ⟨hr.session, ⟨hr.seated.slot, ?_, hr.seated.store⟩, ?_, hr.stores⟩
    · exact Nat.lt_of_lt_of_le hr.seated.state (by simp [begun, Engine.readClock, Engine.addState,
        Engine.note, Pool.add])
    · exact (Pool.get_append_left hr.seated.state _).trans hr.base
  obtain ⟨stores, readings, hpersist, hready'⟩ := persist_ready hready hsv (.begun hm)
  refine ⟨begun.1, _, ?_, hready', Pool.get?_add _ _, rfl, rfl, rfl⟩
  unfold beginRun
  dsimp only
  rw [hr.committed]
  exact congrArg (fun q => (_, q.2)) hpersist

/-- The committed state after a run. -/
def committedAfter (w : Workflow) (e : Engine) (run : WorkflowRun) (final : SessionState) :
    SessionState :=
  if run.status = .completed then SessionState.merge (w.base e) (w.base e) final else w.base e

/-- The session after a run: the committed state, in the store too. -/
structure Concluded (w : Workflow) (e : Engine) (state : SessionState) (f : Engine) : Prop where
  session : w.session f = { w.session e with loaded := true }
  committed : w.sessionState f = state
  stored : w.storedState f = w.store.bind fun store =>
    if (e.stores.get store).isTable then state.reread? else some state

/-- What was written to a working store is kept there. -/
private theorem stored_written {run : WorkflowRun} {state : SessionState}
    {s s' : Store} {q : Except Fault Unit} (hs : s.Working run.sessionId)
    (h : w.Written run state s q s') :
    (s'.holding run.sessionId).bind Held.state? =
      if s.isTable then state.reread? else some state := by
  obtain ⟨r, held, hheld, hof, rfl⟩ := hs.holding h
  rw [hheld, ← h.isTable, ← Store.isRow_of_holding hheld]
  cases hof with
  | record => rfl
  | row createdAt => rfl

/-- The end of a run closes its session. -/
theorem endRun_concluded (hr : w.Ready e P d) (hsv : w.Accepts input e P) {run : WorkflowRun}
    (hrun : run.sessionId = w.sessionId e) (fault : Option Fault) (state : Ref SessionState) :
    w.Concluded e (w.committedAfter e run (d.states.get state))
      (w.endRun run fault state (w.session e).state (w.base e) d) := by
  obtain ⟨stores, readings, hend⟩ :=
    endRun_frame w d run fault state (w.session e).state (w.base e)
  rw [hr.committed] at hend
  have hafter : (w.endRun run fault state (w.session e).state (w.base e) d).states.get
      (w.session e).state = w.committedAfter e run (d.states.get state) := by
    rw [hend, committedAfter]
    dsimp only
    split
    · exact Pool.get_set_self hr.place _
    · exact hr.committed
  have hsession : w.session (w.endRun run fault state (w.session e).state (w.base e) d) =
      { w.session e with loaded := true } := by
    rw [hend]
    exact hr.session
  refine ⟨hsession, ?_, ?_⟩
  · rw [sessionState, hsession]
    exact hafter
  · rw [storedState, sessionId, hsession]
    cases hw : w.store with
    | none => rfl
    | some store =>
      have hindex := hr.seated.store store hw
      obtain ⟨hP, htable⟩ := hr.stores store hw
      obtain ⟨q, s, readings', hwritten, hb⟩ :=
        endRun_writes hw hindex run fault state (w.session e).state (w.base e)
      have hstores := congrArg Engine.stores hb
      have hget : (d.stores.set store s).get store = s := Pool.get_set_self hindex s
      rw [hafter] at hwritten
      rw [Option.bind_some, Option.bind_some, hstores, hget, ← htable]
      have hworks : (d.stores.get store).Working run.sessionId := hrun ▸ hsv.works _ hP
      have hstored := stored_written hworks hwritten
      rwa [hrun] at hstored

end Workflow

end WorkflowEngine
