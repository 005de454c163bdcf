import WorkflowEngine.Proofs.Fiber.Evolutions
import WorkflowEngine.Proofs.Session.Tables

/-!
# Sessions that stay usable

A session in a table after any number of runs on it. Main statement: as long as a table can hold what
comes of the runs, the session is read with the committed state, every run that is over is given back
as it was returned, all sessions are listed, and a workflow that is new to the session begins its run
on the committed state.
-/

namespace WorkflowEngine

open SessionRow (contents Legible runsWith entry?)

theorem SessionState.insertMany_empty (s : SessionState) :
    (∅ : SessionState).insertMany s.entries = s := by
  obtain ⟨map, sorted⟩ := s
  have hmap : (∅ : KeyMap Json).insertMany map.entries = map := sorted.ofList_entries
  exact SessionState.mk.injEq _ _ _ _ ▸ hmap

namespace Workflow

variable {home w : Workflow} {e : Engine} {id : String}
  {content : Option (SessionState × List WorkflowRun)}

/-- A valid workflow that is new to a session begins its run on the stored state. -/
theorem Shelved.resumes {state : SessionState} {runs : List WorkflowRun}
    (h : home.Shelved id (some (state, runs)) e) (hw : w.store = home.store)
    (hv : w.validate = .ok ()) (hs : w.Seated e) (hid : w.sessionId e = id)
    (hl : (w.session e).loaded = false) (hempty : w.sessionState e = ∅) (input : ExecutionInput)
    (runId : String) (token : Ref CancelToken) (feed : Option (Ref Feed)) :
    ∃ ctx run e', Fiber.Evolves (fun _ _ => False) (w.executeRun input runId token feed) e
        ((w.work input ctx run).bind (w.leave ctx (w.session e).state state)) e' ∧
      ctx.sessionId = id ∧ e'.states.get ctx.state = state := by
  rcases hp : w.prepareSession e with ⟨r, e₁⟩
  subst hid
  obtain ⟨rfl, -, hslot, hstate⟩ := h.prepareSession hw hs hp
  rw [if_neg (by simp [hl]), hempty] at hstate
  have hloaded : e₁.states.get (w.session e).state = state := by
    have hplace : w.sessionState e₁ = e₁.states.get (w.session e).state := by
      rw [sessionState, hslot]
    exact hplace.symm.trans (hstate.trans (SessionState.insertMany_empty state))
  have hfirst : Fiber.Moves (w.executeRun input runId token feed) e
      (w.starting input runId token feed (w.session e).id (w.session e).state) e₁ :=
    moves_of_prepareSession hv hp
  obtain ⟨stores, readings, now, hb⟩ := beginRun_frame w e₁ input runId token feed
    (w.session e).id (w.session e).state
  have hsecond := moves_of_beginRun hb
  rw [hloaded] at hsecond
  refine ⟨_, _, _, (Fiber.Evolves.refl.move hfirst).move hsecond, rfl, ?_⟩
  simp [Pool.get, Pool.get?]

/-! ## A session whose state cannot be read -/

section Unread

variable {store : Ref Store} {rows : List SessionRow} {row : SessionRow}

/-- A session whose state cannot be read is not given back. -/
theorem storedSession_unread (hw : w.store = some store) (hget : e.stores.get store = .table rows)
    (hfind : rows.find? (·.sessionId == id) = some row) (hrow : row.state? = none) :
    ∃ fault, (w.storedSession id e).1 = .error fault := by
  obtain ⟨fault, hfault⟩ := Store.read_unread hfind hrow e.readClock.1
  have hcall : (w.storedSession id e).1 = ((e.stores.get store).read id e.readClock.1).1 := by
    rw [storedSession, hw]
    rfl
  rw [hcall, hget, hfault]
  exact ⟨fault, rfl⟩

/-- No run begins on a session whose state cannot be read, unless it is loaded. -/
theorem prepareSession_unread (hw : w.store = some store) (hget : e.stores.get store = .table rows)
    (hfind : rows.find? (·.sessionId == w.sessionId e) = some row) (hrow : row.state? = none)
    (hl : (w.session e).loaded = false) : ∃ fault, (w.prepareSession e).1 = .error fault := by
  obtain ⟨fault, hstored⟩ := storedSession_unread hw hget hfind hrow
  rcases hp : w.storedSession (w.sessionId e) e with ⟨r, e'⟩
  rw [hp] at hstored
  change w.storedSession (w.session e).id e = (r, e') at hp
  refine ⟨fault, ?_⟩
  simp only at hstored
  simp [prepareSession, hl, hp, hstored]

end Unread

end Workflow

namespace Situation

open Relation Workflow

variable {home : Workflow} {s₀ s s' : Situation}

/-- Runs start and go on, and others act, while a table can hold what comes of it. -/
abbrev WorksModestly (home : Workflow) : Situation → Situation → Prop :=
  ReflTransGen fun s s' => Deed home .work s s' ∧ home.Modest s'.engine

/-- No run has started yet, and the session is kept in a table that can be read. -/
structure Stocked (home : Workflow) (s : Situation) : Prop where
  tasks : s.tasks = []
  seated : home.Seated s.engine
  content : ∃ content, home.Shelved (home.sessionId s.engine) content s.engine
  modest : home.Modest s.engine

/-- What a session is good for after runs on it. -/
structure Usable (home : Workflow) (id : String) (s : Situation) : Prop where
  /-- It is read with the committed state. -/
  read : ∃ r, (home.storedSession id s.engine).1 = .ok (some r) ∧
    r.state = home.sessionState s.engine
  /-- Every run that is over is given back as it was returned. -/
  runs : ∀ run, .done (.ok run) ∈ s.tasks →
    (home.run? run.runId s.engine).1 = .ok (some run)
  listed : ∀ store workflowId, home.store = some store →
    ∃ records, (s.engine.listSessions store workflowId).1 = .ok records
  /-- A valid workflow that is new to the session begins its run on the committed state. -/
  resumed : ∀ (w : Workflow) input runId token feed, w.store = home.store → w.validate = .ok () →
    w.Seated s.engine → w.sessionId s.engine = id → (w.session s.engine).loaded = false →
    w.sessionState s.engine = ∅ →
    ∃ ctx run e, Fiber.Evolves (fun _ _ => False) (w.executeRun input runId token feed) s.engine
        ((w.work input ctx run).bind
          (w.leave ctx (w.session s.engine).state (home.sessionState s.engine))) e ∧
      ctx.sessionId = id ∧ e.states.get ctx.state = home.sessionState s.engine

theorem Stocked.upheld (h : Stocked home s) :
    home.Upheld (home.sessionId s.engine) s.engine [] := by
  obtain ⟨content, hcontent⟩ := h.content
  exact ⟨h.seated, rfl, .nil, content, hcontent, by simp⟩

/-- Whatever happens, the row of the session keeps up with its runs. -/
theorem WorksModestly.upheld (h₀ : Stocked home s₀) (h : WorksModestly home s₀ s) :
    home.Modest s.engine ∧ ∃ points, Stand home points s ∧
      home.Upheld (home.sessionId s₀.engine) s.engine points := by
  induction h with
  | refl => exact ⟨h₀.modest, [], by rw [Stand, h₀.tasks]; exact .nil, h₀.upheld⟩
  | tail _ hd ih =>
    obtain ⟨hmodest, points, hstand, hkept⟩ := ih
    obtain ⟨hdeed, hmodest'⟩ := hd
    obtain ⟨points', hturn, hstand'⟩ := hdeed.turn hstand
    exact ⟨hmodest', points', hstand', hkept.turn hmodest hmodest' hturn⟩

/-- A session in a table is usable once a run on it is over, if a table can hold the committed states
and the runs that came of it. -/
theorem usable_of_works (h₀ : Stocked home s₀) (h : WorksModestly home s₀ s) {run : WorkflowRun}
    (hrun : .done (.ok run) ∈ s.tasks) : Usable home (home.sessionId s₀.engine) s := by
  obtain ⟨-, points, hstand, hkept⟩ := h.upheld h₀
  obtain ⟨content, hcontent, hrests⟩ := hkept.content
  have hended : ∀ run, .done (.ok run) ∈ s.tasks →
      content.map Prod.fst = some (home.sessionState s.engine) ∧
        entry? run.runId content = some run := by
    intro run hrun
    obtain ⟨point, hmem, hat⟩ := hstand.point_of_mem hrun
    obtain ⟨ctx, rfl⟩ := hat.ended_of_done
    obtain ⟨-, -, -, hstate, hentry⟩ := hrests _ hmem
    exact ⟨hstate, hentry⟩
  obtain ⟨⟨state, runs⟩, rfl, rfl⟩ := Option.map_eq_some_iff.1 (hended run hrun).1
  obtain ⟨found, hread, hfound⟩ := hcontent.storedSession rfl
  obtain ⟨r, rfl, hr⟩ := Option.map_eq_some_iff.1 hfound
  obtain ⟨hstate, rfl⟩ := Prod.mk.inj hr
  refine ⟨⟨r, hread, hstate⟩, fun run hrun => ?_, fun store workflowId hstore => ?_,
    fun w input runId token feed hw hv hs hid hl hempty =>
      hcontent.resumes hw hv hs hid hl hempty input runId token feed⟩
  · obtain ⟨-, hentry⟩ := hended run hrun
    have hgiven : (home.run? run.runId s.engine).1 = (home.storedSession (home.sessionId s.engine)
        s.engine).1.map fun r => r.bind (·.run? run.runId) := rfl
    rw [hgiven, hkept.session, hread]
    exact congrArg Except.ok hentry
  · obtain ⟨store', rows, hstore', -, hget, hlegible, -⟩ := hcontent.table
    obtain rfl : store' = store := Option.some.inj (hstore'.symm.trans hstore)
    obtain ⟨records, hlist⟩ := hlegible.list workflowId s.engine.readClock.1
    have hgiven : (s.engine.listSessions store' workflowId).1 =
        (s.engine.stores.get store').list workflowId s.engine.readClock.1 := rfl
    rw [hgiven, hget]
    exact ⟨records, hlist⟩

/-! ## A run that leaves a note -/

/-- A workflow that notes a value in its session. -/
private def noting (v : Json) : Workflow where
  id := "noting"
  name := "noting"
  plan := .function fun _ _ => .change (·.insert "note" v) (.finish (.text "noted"))
  store := some ⟨0⟩
  slot := ⟨0⟩

/-- Nothing has happened yet, and the table is empty. -/
private def blank : Situation where
  engine :=
    { start := ⟨0, 0⟩
      states := ⟨[∅]⟩
      tokens := ⟨[{}]⟩
      slots := ⟨[{ id := "session", state := ⟨0⟩ }]⟩
      stores := ⟨[.table []]⟩ }
  tasks := []

private theorem stocked_blank (v : Json) : Stocked (noting v) blank := by
  have hseated : (noting v).Seated blank.engine := by
    refine ⟨Nat.one_pos, Nat.one_pos, ?_⟩
    rintro store ⟨⟩
    exact Nat.one_pos
  refine ⟨rfl, hseated, ⟨none, ⟨⟨0⟩, [], rfl, Nat.one_pos, rfl, SessionRow.legible_nil _, rfl⟩⟩,
    SessionState.storable_empty, ?_, Engine.dated_of_start rfl rfl (by decide)⟩
  exact fun _ _ _ _ h => absurd h List.not_mem_nil

/-- The session is prepared for the first run. -/
private def opening : Engine :=
  { start := ⟨0, 0⟩
    readings := 1
    generated := 1
    states := ⟨[∅]⟩
    tokens := ⟨[{}]⟩
    slots := ⟨[{ id := "session", state := ⟨0⟩, loaded := true }]⟩
    stores := ⟨[.table []]⟩ }

private def page : RunContext where
  sessionId := "session"
  runId := Ident.ofNat 0
  state := ⟨1⟩
  token := ⟨0⟩

private def noteless : WorkflowRun :=
  { WorkflowRun.pending (Ident.ofNat 0) "session" "noting" "noting" ⟨0, 1000⟩ with
    status := .running }

private def note : WorkflowRun :=
  ({ noteless with content := some (.text "noted") } : WorkflowRun).conclude none

/-- The run has begun. -/
private def begun (v : Json) : Engine :=
  ((noting v).beginRun {} (Ident.ofNat 0) ⟨0⟩ none "session" ⟨0⟩ opening).2

/-- The value is noted in the run's copy of the state. -/
private def noted (v : Json) : Engine := (begun v).setState ⟨1⟩ (.insert ∅ "note" v)

/-- The run has ended. -/
private def annotated (v : Json) : Engine := (noting v).endRun note none ⟨1⟩ ⟨0⟩ ∅ (noted v)

/-- A run that notes a value works in one move. -/
private theorem moves_work_noting (v : Json) {ctx : RunContext} (run : WorkflowRun) {e : Engine}
    (hfeed : ctx.feed = none) (hbus : ctx.bus = none) (hc : e.isCancelled ctx.token = false) :
    Fiber.Moves ((noting v).work {} ctx run) e
      (.done ({ run with content := some (.text "noted") }, none))
      (e.setState ctx.state ((e.states.get ctx.state).insert "note" v)) := by
  have hwork : (noting v).work {} ctx run =
      runFunction (fun _ _ => .change (·.insert "note" v) (.finish (.text "noted"))) {} ctx run := by
    simp [work, RunContext.emit, hfeed, hbus]
    rfl
  rw [hwork]
  exact .ended (b := Except.ok (Content.text "noted")) hc rfl

/-- The run goes through its stages, one after another. -/
private theorem works_noting (v : Json) {P : Engine → Prop} (hblank : P blank.engine)
    (hfresh : P blank.engine.freshId.2) (hopening : P opening) (hbegun : P (begun v))
    (hnoted : P (noted v)) (hended : P (annotated v)) (hover : P (annotated v).readClock.2) :
    ReflTransGen (fun s s' => Deed (noting v) .work s s' ∧ P s'.engine) blank
      ⟨(annotated v).readClock.2, [.done (.ok note)]⟩ := by
  have hvalid : (noting v).validate = .ok () := by
    have hname : Text.isAllBlank "noting" = false := by decide
    simp [validate, noting, hname]
  have hmove {e e' : Engine} {p p' : Fiber Engine (Except Fault WorkflowRun)}
      (hm : Fiber.Moves p e p' e') : Deed (noting v) .work ⟨e, [p]⟩ ⟨e', [p']⟩ :=
    @Deed.move _ e e' p p' [] [] hm
  have hrun : Deed (noting v) .work blank ⟨blank.engine, [(noting v).run {} ⟨0⟩]⟩ :=
    .run ⟨rfl, rfl⟩ {} ⟨0⟩
  have hprepare : Fiber.Moves ((noting v).executeRun {} (Ident.ofNat 0) ⟨0⟩ none)
      blank.engine.freshId.2 ((noting v).starting {} (Ident.ofNat 0) ⟨0⟩ none "session" ⟨0⟩)
      opening := moves_of_prepareSession hvalid rfl
  have hbegin : Fiber.Moves ((noting v).starting {} (Ident.ofNat 0) ⟨0⟩ none "session" ⟨0⟩) opening
      (((noting v).work {} page noteless).bind ((noting v).leave page ⟨0⟩ ∅)) (begun v) :=
    moves_of_beginRun rfl
  have hwork : Fiber.Moves (((noting v).work {} page noteless).bind ((noting v).leave page ⟨0⟩ ∅))
      (begun v) (.act (fun e => ((), (noting v).endRun note none ⟨1⟩ ⟨0⟩ ∅ e))
        fun _ => leaving page note) (noted v) :=
    Fiber.moves_bind (moves_work_noting v noteless rfl rfl rfl) _
  have hend : Fiber.Moves (.act (fun e => ((), (noting v).endRun note none ⟨1⟩ ⟨0⟩ ∅ e))
      fun _ => leaving page note) (noted v) (leaving page note) (annotated v) := .act
  have htell : Fiber.Moves (leaving page note) (annotated v) (.done (.ok note))
      (annotated v).readClock.2 := .act
  exact ((((((ReflTransGen.single ⟨hrun, hblank⟩).tail ⟨hmove .act, hfresh⟩).tail
    ⟨hmove hprepare, hopening⟩).tail ⟨hmove hbegin, hbegun⟩).tail ⟨hmove hwork, hnoted⟩).tail
    ⟨hmove hend, hended⟩).tail ⟨hmove htell, hover⟩

private theorem storable_noteless : noteless.Storable :=
  WorkflowRun.Bare.storable ⟨nofun, rfl, rfl, rfl⟩ (Instant.valid_of_first_second (by decide))

private theorem storable_note : note.Storable :=
  WorkflowRun.Bare.storable ⟨fun _ h => ⟨_, (Option.some.inj h).symm⟩, rfl, rfl, rfl⟩
    (Instant.valid_of_first_second (by decide))

private theorem begun_frame (v : Json) : ∃ stores readings, readings ≤ 5 ∧
    begun v = { opening with
      stores
      readings
      states := ⟨[∅, ∅]⟩
      journal := [(Ident.ofNat 0, .began ∅)] } := by
  obtain ⟨stores, readings, now, hframe⟩ :=
    beginRun_frame (noting v) opening {} (Ident.ofNat 0) ⟨0⟩ none "session" ⟨0⟩
  have hle := readings_beginRun_le (noting v) opening {} (Ident.ofNat 0) ⟨0⟩ none "session" ⟨0⟩
  rw [hframe] at hle
  refine ⟨stores, readings, hle, ?_⟩
  rw [begun, hframe]
  rfl

private theorem annotated_frame (v : Json) : ∃ stores readings, readings ≤ 8 ∧
    annotated v = { opening with
      stores
      readings
      states := ⟨[.insert ∅ "note" v, .insert ∅ "note" v]⟩
      journal :=
        [(Ident.ofNat 0, .ended none note (.insert ∅ "note" v)), (Ident.ofNat 0, .began ∅)] } := by
  obtain ⟨stores, readings, hle, hbegun⟩ := begun_frame v
  obtain ⟨stores', readings', hframe⟩ := endRun_frame (noting v) (noted v) note none ⟨1⟩ ⟨0⟩ ∅
  have hle' := readings_endRun_le (noting v) (noted v) note none ⟨1⟩ ⟨0⟩ ∅
  rw [hframe, noted, hbegun] at hle'
  refine ⟨stores', readings', Nat.le_trans hle' (Nat.add_le_add_right hle 3), ?_⟩
  rw [annotated, hframe, noted, hbegun]
  rfl

/-- All the way a table can hold what comes of the run, if it can hold the value. -/
private theorem worksModestly_noting {v : Json} (hplain : v.Plain) (hnesting : v.nesting ≤ 126) :
    WorksModestly (noting v) blank ⟨(annotated v).readClock.2, [.done (.ok note)]⟩ := by
  have hnote : (SessionState.insert ∅ "note" v).Storable :=
    SessionState.storable_of_entries (fun _ h => List.mem_singleton.1 h ▸ hplain)
      (fun _ h => List.mem_singleton.1 h ▸ hnesting)
  have hearly {e : Engine} (hstate : (noting v).sessionState e = ∅)
      (hjournal : ∀ a ∈ e.journal, a = (Ident.ofNat 0, .began ∅)) (hd : e.Dated) :
      (noting v).Modest e := by
    refine ⟨hstate ▸ SessionState.storable_empty, fun runId fault run final h => ?_, hd⟩
    cases hjournal _ h
  obtain ⟨stores, readings, hle, hbegun⟩ := begun_frame v
  obtain ⟨stores', readings', hle', hended⟩ := annotated_frame v
  have hruns : ∀ runId fault run final, (runId, .ended fault run final) ∈ (annotated v).journal →
      run.Storable := by
    intro runId fault run final h
    rw [hended] at h
    simp only [List.mem_cons, Prod.mk.injEq, reduceCtorEq, and_false, List.not_mem_nil, or_false,
      Happening.ended.injEq] at h
    exact h.2.2.1 ▸ storable_note
  refine works_noting v (hearly rfl (by simp [blank]) (Engine.dated_of_start rfl rfl (by decide)))
    (hearly rfl (by simp [blank, Engine.freshId]) (Engine.dated_of_start rfl rfl (by decide)))
    (hearly rfl (by simp [opening]) (Engine.dated_of_start rfl rfl (by decide))) ?_ ?_
    ⟨?_, hruns, ?_⟩ ⟨?_, hruns, ?_⟩
  · rw [hbegun]
    exact hearly rfl (fun a => List.mem_singleton.1)
      (Engine.dated_of_start rfl rfl (Nat.lt_of_le_of_lt hle (by decide)))
  · rw [noted, hbegun]
    exact hearly rfl (fun a => List.mem_singleton.1)
      (Engine.dated_of_start rfl rfl (Nat.lt_of_le_of_lt hle (by decide)))
  · rw [hended]
    exact hnote
  · rw [hended]
    exact Engine.dated_of_start rfl rfl (Nat.lt_of_le_of_lt hle' (by decide))
  · rw [hended]
    exact hnote
  · rw [hended]
    exact Engine.dated_of_start rfl rfl (Nat.lt_of_le_of_lt (Nat.succ_le_succ hle') (by decide))

/-- A session in whose state a word was noted. -/
theorem usable_of_noting : ∃ s run, Stocked (noting (.str "word")) blank ∧
    WorksModestly (noting (.str "word")) blank s ∧ .done (.ok run) ∈ s.tasks ∧
    Usable (noting (.str "word")) ((noting (.str "word")).sessionId blank.engine) s ∧
    (noting (.str "word")).sessionState s.engine = .insert ∅ "note" (.str "word") := by
  have hworks := worksModestly_noting (v := .str "word") (.str rfl _) (Nat.zero_le _)
  have hdone : Fiber.done (.ok note) ∈
      (⟨(annotated (.str "word")).readClock.2, [.done (.ok note)]⟩ : Situation).tasks :=
    List.mem_singleton.2 rfl
  have hstate : (noting (.str "word")).sessionState (annotated (.str "word")).readClock.2 =
      .insert ∅ "note" (.str "word") := by
    obtain ⟨stores, readings, -, hended⟩ := annotated_frame (.str "word")
    rw [hended]
    rfl
  exact ⟨_, note, stocked_blank _, hworks, hdone, usable_of_works (stocked_blank _) hworks hdone,
    hstate⟩

private theorem begun_table (v : Json) : ∃ rows, (begun v).stores = ⟨[.table rows]⟩ ∧
    SessionRow.Legible "session" rows := by
  obtain ⟨q, s, now, readings, hwritten, hbegun⟩ := beginRun_writes (w := noting v)
    (e := opening) rfl Nat.one_pos {} (Ident.ofNat 0) ⟨0⟩ none "session" ⟨0⟩
  have hnow : now = ⟨0, 1000⟩ := (congrArg (fun r => r.1.2.1.createdAt) hbegun).symm
  have hempty : (begun v).states.get ⟨0⟩ = ∅ := by
    obtain ⟨_, _, -, hframe⟩ := begun_frame v
    rw [hframe]
    rfl
  have hwritten' : (noting v).Written noteless ∅ (.table []) q s := by
    subst hnow
    rw [← hempty]
    exact hwritten
  obtain ⟨-, rows, rfl, hlegible, -⟩ := hwritten'.legible (SessionRow.legible_nil _)
    storable_noteless SessionState.storable_empty
  exact ⟨rows, congrArg (fun r => r.2.stores) hbegun, hlegible⟩

/-- A value that is too deep leaves a row that cannot be read. -/
private theorem annotated_table {v : Json} (hv : (SessionState.insert ∅ "note" v).reread? = none) :
    ∃ rows row, (annotated v).stores = ⟨[.table rows]⟩ ∧
      rows.find? (·.sessionId == "session") = some row ∧ row.state? = none := by
  obtain ⟨rows, hrows, hlegible⟩ := begun_table v
  have hstores : (noted v).stores = ⟨[.table rows]⟩ := hrows
  have hstore : (noting v).store = some ⟨0⟩ := rfl
  have hlt : 0 < (noted v).stores.items.length := by
    rw [hstores]
    exact Nat.one_pos
  obtain ⟨q, s, readings, hwritten, hended⟩ := endRun_writes hstore hlt note none ⟨1⟩ ⟨0⟩ ∅
  have hstate : (annotated v).states.get ⟨0⟩ = .insert ∅ "note" v := by
    obtain ⟨_, _, -, hframe⟩ := annotated_frame v
    rw [hframe]
    rfl
  have hwritten' : (noting v).Written note (.insert ∅ "note" v) (.table rows) q s := by
    rw [hstores] at hwritten
    exact hstate ▸ hwritten
  obtain ⟨-, rows', row, rfl, hfind, hrow⟩ := hwritten'.unreadable hlegible hv
  refine ⟨rows', row, ?_, hfind, hrow⟩
  have hset : (annotated v).stores = (noted v).stores.set ⟨0⟩ (.table rows') :=
    congrArg Engine.stores hended
  rw [hset, hstores]
  rfl

/-- A run that notes too deep a value returns as completed, and with that its session is lost: it is
not read, its runs are not given back, nothing is listed, and no workflow that is new to the session
can begin a run on it. -/
theorem lost_noting : ∃ s run, Stocked (noting (.nested 126)) blank ∧
    ReflTransGen (Deed (noting (.nested 126)) .work) blank s ∧ .done (.ok run) ∈ s.tasks ∧
    run.status = .completed ∧
    (∃ fault, ((noting (.nested 126)).storedSession "session" s.engine).1 = .error fault) ∧
    (∃ fault, ((noting (.nested 126)).run? run.runId s.engine).1 = .error fault) ∧
    (∃ fault, (s.engine.listSessions ⟨0⟩ none).1 = .error fault) ∧
    (∀ w : Workflow, w.store = some ⟨0⟩ → w.sessionId s.engine = "session" →
      (w.session s.engine).loaded = false →
      ∃ fault, (w.prepareSession s.engine).1 = .error fault) := by
  obtain ⟨v, hv⟩ : ∃ v, v = Json.nested 126 := ⟨_, rfl⟩
  rw [← hv]
  have hunread : (SessionState.insert ∅ "note" v).reread? = none := by
    have htext : Json.read? .value (SessionState.insert ∅ "note" v).toJson.compact = none :=
      hv ▸ Json.read?_obj_nested "note"
    rw [SessionState.reread?, htext]
    rfl
  have hworks := works_noting v (P := fun _ => True) trivial trivial trivial trivial trivial trivial
    trivial
  obtain ⟨rows, row, hrows, hfind, hrow⟩ := annotated_table hunread
  have hsession : (noting v).sessionId (annotated v).readClock.2 = "session" := by
    obtain ⟨_, _, -, hframe⟩ := annotated_frame v
    rw [hframe]
    rfl
  obtain ⟨e, he⟩ : ∃ e, e = (annotated v).readClock.2 := ⟨_, rfl⟩
  have hget : e.stores.get ⟨0⟩ = .table rows := by
    have hclock (e : Engine) : e.readClock.2.stores = e.stores := rfl
    rw [he, hclock, hrows]
    rfl
  rw [← he] at hworks hsession
  refine ⟨⟨e, [.done (.ok note)]⟩, note, stocked_blank v,
    ReflTransGen.mono (fun _ _ h => h.1) _ _ hworks, List.mem_singleton.2 rfl, rfl,
    storedSession_unread rfl hget hfind hrow, ?_, ?_, fun w hw hid hl => ?_⟩
  · obtain ⟨fault, hstored⟩ := storedSession_unread (w := noting v) rfl hget hfind hrow
    have hgiven : ((noting v).run? note.runId e).1 = ((noting v).storedSession
        ((noting v).sessionId e) e).1.map fun r => r.bind (·.run? note.runId) := rfl
    rw [hgiven, hsession, hstored]
    exact ⟨fault, rfl⟩
  · have hcall : (e.listSessions ⟨0⟩ none).1 = (e.stores.get ⟨0⟩).list none e.readClock.1 := rfl
    rw [hcall, hget]
    exact Store.list_unread (List.mem_of_find?_eq_some hfind) hrow _
  · exact prepareSession_unread hw hget (hid ▸ hfind) hrow hl

end Situation

end WorkflowEngine
