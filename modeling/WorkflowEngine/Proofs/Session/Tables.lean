import WorkflowEngine.Proofs.Session.Records
import WorkflowEngine.Proofs.Store.Contents

/-!
# Sessions in tables

Any number of runs on one session that is kept in a table, whose fibers move in any order. As long as
a table can hold the committed state and the runs that end, the rows stay readable: from the first
run on the row of the session holds the committed state, and every run that is over stands in it with
its outcome.
-/

namespace WorkflowEngine

open SessionRow (contents Legible runsWith entry?)

theorem SessionRow.entry?_runsWith_ne {run : WorkflowRun} {runId : String} (state : SessionState)
    (content : Option (SessionState × List WorkflowRun)) (h : runId ≠ run.runId) :
    entry? runId (some (state, runsWith run content)) = entry? runId content := by
  have hne := SessionRecord.run?_upsertRun_ne { SessionRecord.new "" "" "" run.createdAt with
    runs := content.elim [] (·.2) } run.createdAt h
  refine hne.trans ?_
  cases content <;> rfl

/-- The next two times that are read are of the calendar. -/
def Engine.Dated (e : Engine) : Prop := e.readClock.1.Valid ∧ e.readClock.2.readClock.1.Valid

theorem Instant.valid_of_first_second {nanos : Nat} (h : nanos < 1000000000) : (Instant.mk 0 nanos).Valid :=
  ⟨(by decide : -262143 ≤ (1970 : Int) ∧ (1970 : Int) ≤ 262142), .inl h⟩

/-- In the first second all times are of the calendar. -/
theorem Engine.dated_of_start {e : Engine} (hs : e.start = ⟨0, 0⟩) (hn : e.now = 0)
    (hr : e.readings < 1000) : e.Dated := by
  have hvalid (n : Nat) (h : n ≤ 1000) : (Instant.addMicros ⟨0, 0⟩ n).Valid := by
    have htime : Instant.addMicros ⟨0, 0⟩ n = ⟨0, 1000 * n⟩ := by
      simp only [Instant.addMicros, Instant.mk.injEq]
      omega
    exact htime ▸ Instant.valid_of_first_second (by omega)
  simp only [Dated, readClock, hs, hn]
  exact ⟨hvalid _ (by omega), hvalid _ (by omega)⟩

namespace Workflow

open Situation (Kind)

variable {home w : Workflow} {e e' : Engine} {id : String}
  {content : Option (SessionState × List WorkflowRun)} {points before after : List Point}
  {point point' : Point}

private theorem readClock_storedSession {q : Except Fault (Option SessionRecord)}
    (h : w.storedSession id e = (q, e')) :
    e'.readClock.1 = e.readClock.1 ∨ e'.readClock.1 = e.readClock.2.readClock.1 := by
  obtain rfl : (w.storedSession id e).2 = e' := congrArg Prod.snd h
  unfold storedSession
  split
  · exact .inr rfl
  · exact .inl rfl

/-- The preparation of a session reads the clock once at most. -/
theorem readClock_prepareSession {r : Except Fault (String × Ref SessionState)}
    (h : w.prepareSession e = (r, e')) :
    e'.readClock.1 = e.readClock.1 ∨ e'.readClock.1 = e.readClock.2.readClock.1 := by
  rcases prepareSession_split w e h with ⟨-, -, rfl⟩ |
    ⟨-, ⟨fault, hstored, -⟩ | ⟨found, e₁, hstored, -, rfl⟩⟩
  · exact .inl rfl
  · exact readClock_storedSession hstored
  · have hclock := readClock_storedSession hstored
    exact hclock

/-! ## Calls on a session in a table -/

/-- A session is kept in a table, with what the table holds for it. -/
structure Shelved (home : Workflow) (id : String)
    (content : Option (SessionState × List WorkflowRun)) (e : Engine) : Prop where
  table : ∃ store rows, home.store = some store ∧ store.index < e.stores.items.length ∧
    e.stores.get store = .table rows ∧ Legible id rows ∧ contents id rows = content

namespace Shelved

theorem of_stores (h : home.Shelved id content e) (hs : e'.stores = e.stores) :
    home.Shelved id content e' := by
  obtain ⟨store, rows, hstore, hlt, hget, hrows⟩ := h.table
  exact ⟨store, rows, hstore, hs ▸ hlt, hs ▸ hget, hrows⟩

/-- A run that is written is put among the runs of its session. -/
theorem written {store : Ref Store} {run : WorkflowRun} {state : SessionState}
    {q : Except Fault Unit} {s : Store} (h : home.Shelved run.sessionId content e)
    (hstore : home.store = some store) (hw : w.Written run state (e.stores.get store) q s)
    (hs : e'.stores = e.stores.set store s) (hrun : run.Storable) (hstate : state.Storable) :
    q = .ok () ∧ home.Shelved run.sessionId (some (state, runsWith run content)) e' := by
  obtain ⟨store', rows, hstore', hlt, hget, hlegible, rfl⟩ := h.table
  obtain rfl : store' = store := Option.some.inj (hstore'.symm.trans hstore)
  rw [hget] at hw
  obtain ⟨rfl, rows', rfl, hlegible', hcontents⟩ := hw.legible hlegible hrun hstate
  refine ⟨rfl, store', rows', hstore, ?_, ?_, hlegible', hcontents⟩
  · rw [hs]
    exact (Pool.size_set ..).symm ▸ hlt
  · rw [hs]
    exact Pool.get_set_self hlt _

/-- What the store gives back for a session. -/
theorem storedSession (h : home.Shelved id content e) (hw : w.store = home.store) :
    ∃ found, (w.storedSession id e).1 = .ok found ∧
      found.map (fun r => (r.state, r.runs)) = content := by
  obtain ⟨store, rows, hstore, -, hget, hlegible, rfl⟩ := h.table
  obtain ⟨found, hread, -, hcontent⟩ := hlegible.read id e.readClock.1
  refine ⟨found, ?_, hcontent⟩
  unfold Workflow.storedSession Engine.readSession
  rw [hw, hstore]
  rw [← hget] at hread
  exact congrArg Prod.fst hread

/-- The preparation of a session takes over the stored entries if nobody did, and cannot fail. -/
theorem prepareSession (h : home.Shelved (w.session e).id content e) (hw : w.store = home.store)
    (hs : w.Seated e) {r : Except Fault (String × Ref SessionState)}
    (hp : w.prepareSession e = (r, e')) :
    r = .ok ((w.session e).id, (w.session e).state) ∧
      home.Shelved (w.session e).id content e' ∧
      w.session e' = { w.session e with loaded := true } ∧
      w.sessionState e' = if (w.session e).loaded then w.sessionState e
        else (w.sessionState e).insertMany (content.elim [] (·.1.entries)) := by
  obtain ⟨store, rows, hstore, hlt, hget, hlegible, rfl⟩ := h.table
  have hsession := session_prepareSession hs hp
  rcases prepareSession_reads (hw.trans hstore) hp with ⟨hl, rfl, rfl⟩ |
    ⟨hl, q, s, now, readings, hread, hq⟩
  · refine ⟨rfl, h, ?_, by rw [if_pos hl]⟩
    rw [← hl]
  · obtain ⟨found, hok, -, hcontent⟩ := hlegible.read (w.session e).id now
    rw [hget, hok] at hread
    cases hread
    rcases hq with ⟨fault, hfault, -⟩ | ⟨found', hfound, rfl, rfl⟩
    · cases hfault
    · obtain rfl := Except.ok.inj hfound
      obtain ⟨fault, hfault, -⟩ | ⟨-, hslot⟩ := hsession
      · cases hfault
      refine ⟨rfl, ⟨store, rows, hstore, ?_, ?_, hlegible, rfl⟩, hslot, ?_⟩
      · exact (Pool.size_set ..).symm ▸ hlt
      · exact Pool.get_set_self hlt _
      · rw [sessionState, hslot, if_neg (by simp [hl]), ← hcontent]
        cases found with
        | none => rfl
        | some record => exact Pool.get_set_self hs.state _

end Shelved

/-! ## Points of runs on a session in a table -/

/-- What the row of a session holds of a run at a point, and of the committed state once a run has
begun. -/
def Rests (home : Workflow) (id : String) (content : Option (SessionState × List WorkflowRun))
    (e : Engine) : Point → Prop
  | .starting _ sessionId committed =>
    sessionId = id ∧ committed = (home.session e).state ∧ (home.session e).loaded = true
  | .working ctx committed _ => ctx.sessionId = id ∧ committed = (home.session e).state ∧
    (home.session e).loaded = true ∧ ctx.state ≠ (home.session e).state ∧
    content.map Prod.fst = some (home.sessionState e)
  | .ended ctx run => run.runId = ctx.runId ∧ (home.session e).loaded = true ∧
    ctx.state ≠ (home.session e).state ∧ content.map Prod.fst = some (home.sessionState e) ∧
    entry? run.runId content = some run
  | .called | .entering _ | .refused | .aborted => True

/-- A call that leaves the row and, once it is loaded, the session. -/
theorem Rests.leaves (h : home.Rests id content e point)
    (hs : (home.session e).loaded = true →
      home.session e' = home.session e ∧ home.sessionState e' = home.sessionState e) :
    home.Rests id content e' point := by
  cases point with
  | starting runId sessionId committed =>
    obtain ⟨hid, hplace, hl⟩ := h
    have hsession := (hs hl).1
    rw [← hsession] at hplace hl
    exact ⟨hid, hplace, hl⟩
  | working ctx committed base =>
    obtain ⟨hid, hplace, hl, hne, hstate⟩ := h
    obtain ⟨hsession, hcommitted⟩ := hs hl
    rw [← hsession] at hplace hl hne
    exact ⟨hid, hplace, hl, hne, hcommitted ▸ hstate⟩
  | ended ctx run =>
    obtain ⟨hid, hl, hne, hstate, hentry⟩ := h
    obtain ⟨hsession, hcommitted⟩ := hs hl
    rw [← hsession] at hl hne
    exact ⟨hid, hl, hne, hcommitted ▸ hstate, hentry⟩
  | _ => trivial

/-- A call that puts another run into the row, with the committed state. -/
theorem Rests.puts {run : WorkflowRun} (h : home.Rests id content e point)
    (hs : (home.session e).loaded = true → home.session e' = home.session e)
    (hne : point.runId? ≠ some run.runId) :
    home.Rests id (some (home.sessionState e', runsWith run content)) e' point := by
  cases point with
  | starting runId sessionId committed =>
    obtain ⟨hid, hplace, hl⟩ := h
    have hsession := hs hl
    rw [← hsession] at hplace hl
    exact ⟨hid, hplace, hl⟩
  | working ctx committed base =>
    obtain ⟨hid, hplace, hl, hown, -⟩ := h
    have hsession := hs hl
    rw [← hsession] at hplace hl hown
    exact ⟨hid, hplace, hl, hown, rfl⟩
  | ended ctx run' =>
    obtain ⟨hid, hl, hown, -, hentry⟩ := h
    have hsession := hs hl
    rw [← hsession] at hl hown
    refine ⟨hid, hl, hown, rfl, ?_⟩
    rwa [SessionRow.entry?_runsWith_ne _ _ fun heq => hne (congrArg some (hid.symm.trans heq))]
  | _ => trivial

/-- What holds of a session in a table and of its runs. -/
structure Upheld (home : Workflow) (id : String) (e : Engine) (points : List Point) : Prop where
  seated : home.Seated e
  session : home.sessionId e = id
  distinct : Distinct e points
  content : ∃ content, home.Shelved id content e ∧ ∀ point ∈ points, home.Rests id content e point

/-- A table can hold the committed state and the runs that have ended, and the clock is right. -/
structure Modest (home : Workflow) (e : Engine) : Prop where
  state : (home.sessionState e).Storable
  runs : ∀ runId fault run final, (runId, .ended fault run final) ∈ e.journal → run.Storable
  dated : e.Dated

/-- Calls that leave the row as it is and, once it is loaded, the session. -/
theorem Upheld.leaves {points' : List Point} (h : home.Upheld id e points) (hg : home.Grows e e')
    (hid : home.sessionId e' = home.sessionId e)
    (hs : (home.session e).loaded = true →
      home.session e' = home.session e ∧ home.sessionState e' = home.sessionState e)
    (hshelved : ∀ content, home.Shelved id content e → home.Shelved id content e')
    (hd : Distinct e' points')
    (hp : ∀ point ∈ points', point ∈ points ∨ ∀ content, home.Rests id content e' point) :
    home.Upheld id e' points' := by
  obtain ⟨content, hcontent, hrests⟩ := h.content
  refine ⟨hg.seated h.seated, hid.trans h.session, hd, content, hshelved content hcontent,
    fun point hmem => ?_⟩
  obtain hold | hnew := hp point hmem
  · exact (hrests point hold).leaves hs
  · exact hnew content

/-- A run is put into the row, with the committed state. -/
theorem Upheld.puts {points' : List Point} {run : WorkflowRun} (h : home.Upheld id e points)
    (hg : home.Grows e e') (hid : home.sessionId e' = home.sessionId e)
    (hs : (home.session e).loaded = true → home.session e' = home.session e)
    (hshelved : ∀ content, home.Shelved id content e →
      home.Shelved id (some (home.sessionState e', runsWith run content)) e')
    (hd : Distinct e' points')
    (hp : ∀ point ∈ points', (point ∈ points ∧ point.runId? ≠ some run.runId) ∨
      ∀ content, home.Rests id (some (home.sessionState e', runsWith run content)) e' point) :
    home.Upheld id e' points' := by
  obtain ⟨content, hcontent, hrests⟩ := h.content
  refine ⟨hg.seated h.seated, hid.trans h.session, hd, _, hshelved content hcontent,
    fun point hmem => ?_⟩
  obtain ⟨hold, hne⟩ | hnew := hp point hmem
  · exact (hrests point hold).puts hs hne
  · exact hnew content

/-- The preparation of a session in a table succeeds and leaves the row as it is. -/
theorem Upheld.prepareSession (h : home.Upheld id e points)
    {r : Except Fault (String × Ref SessionState)} (hp : home.prepareSession e = (r, e')) :
    r = .ok (id, (home.session e').state) ∧ (home.session e').loaded = true ∧
      home.Upheld id e' points := by
  obtain ⟨content, hcontent, -⟩ := h.content
  have hsession : (home.session e).id = id := h.session
  obtain ⟨hr, -, hslot, -⟩ := Shelved.prepareSession (hsession ▸ hcontent) rfl h.seated hp
  refine ⟨by rw [hr, hslot, hsession], by rw [hslot], ?_⟩
  have hg := grows_prepareSession hp
  refine h.leaves hg (by rw [sessionId, hslot]; rfl) (fun hl => ?_) (fun content hcontent => ?_)
    (h.distinct.mono hg.generated) fun point hmem => .inl hmem
  · obtain ⟨-, -, -, hstate⟩ := Shelved.prepareSession (hsession ▸ hcontent) rfl h.seated hp
    rw [if_pos hl] at hstate
    refine ⟨?_, hstate⟩
    rw [hslot, ← hl]
  · obtain ⟨-, hkept, -⟩ := Shelved.prepareSession (hsession ▸ hcontent) rfl h.seated hp
    exact hsession ▸ hkept

/-- What a run does in its own copy leaves the session and the row. -/
theorem Upheld.acts {ctx : RunContext} {t : List Happening} (h : home.Upheld id e points)
    (ht : ctx.Acts e t e') (hne : ctx.state ≠ (home.session e).state) :
    home.Upheld id e' points := by
  have hsession : home.session e' = home.session e := by
    rw [Workflow.session, Workflow.session, ht.slots]
  have hg : home.Grows e e' := grows_acts ht
  exact h.leaves hg (by rw [sessionId, sessionId, hsession])
    (fun _ => ⟨hsession, (spares_acts ht hne).committed⟩) (fun _ hc => hc.of_stores ht.stores)
    (h.distinct.mono hg.generated) fun p hmem => .inl hmem

/-- A run is written with the committed state, by a call that leaves the session. -/
theorem Upheld.written {run : WorkflowRun} {store : Ref Store} {q : Except Fault Unit} {s : Store}
    (h : home.Upheld id e (before ++ point :: after)) (hg : home.Grows e e')
    (hsession : home.session e' = home.session e) (hstore : home.store = some store)
    (hw : w.Written run (home.sessionState e') (e.stores.get store) q s)
    (hs : e'.stores = e.stores.set store s) (hid : run.sessionId = id) (hrun : run.Storable)
    (hstate : (home.sessionState e').Storable) (hpoint : point.runId? = some run.runId)
    (hd : Distinct e' (before ++ point' :: after))
    (hnew : ∀ content,
      home.Rests id (some (home.sessionState e', runsWith run content)) e' point') :
    home.Upheld id e' (before ++ point' :: after) := by
  subst hid
  refine h.puts hg (by rw [sessionId, sessionId, hsession]) (fun _ => hsession)
    (fun content hcontent => (hcontent.written hstore hw hs hrun hstate).2) hd fun p hmem => ?_
  have hother := h.distinct.others hpoint p
  simp only [List.mem_append, List.mem_cons] at hmem hother ⊢
  rcases hmem with hmem | rfl | hmem
  · exact .inl ⟨.inl hmem, hother (.inl hmem)⟩
  · exact .inr hnew
  · exact .inl ⟨.inr (.inr hmem), hother (.inr hmem)⟩

/-- A run that begins is put into the row as running. -/
theorem Upheld.begins (h : home.Upheld id e (before ++ point :: after)) (hw : home.Shares w)
    (hl : (home.session e).loaded = true) (hdated : e.readClock.1.Valid)
    (hstate : (home.sessionState e').Storable) {input : ExecutionInput} {runId : String}
    {token : Ref CancelToken} {feed : Option (Ref Feed)} {ctx : RunContext} {run : WorkflowRun}
    {base : SessionState} (hg : home.Grows e e')
    (hb : w.beginRun input runId token feed id (home.session e).state e = ((ctx, run, base), e'))
    (hpoint : point.runId? = some runId)
    (hd : Distinct e' (before ++ .working ctx (home.session e).state base :: after)) :
    home.Upheld id e' (before ++ .working ctx (home.session e).state base :: after) := by
  obtain ⟨content, hcontent, -⟩ := h.content
  obtain ⟨store, -, hstore, hlt, -⟩ := hcontent.table
  obtain ⟨q, s, now, readings, hwritten, hframe⟩ := beginRun_writes (hw.2.trans hstore) hlt input
    runId token feed id (home.session e).state
  have hnow : now = e.readClock.1 := (congrArg (fun r => r.1.2.1.createdAt) hframe).symm
  rw [hb] at hframe hwritten
  cases hframe
  have hrun : WorkflowRun.Storable
      { WorkflowRun.pending runId id w.id w.name now with status := .running, media := input.media } :=
    WorkflowRun.Bare.storable ⟨nofun, rfl, rfl, rfl⟩ (hnow ▸ hdated)
  have hne : (⟨e.states.items.length⟩ : Ref SessionState) ≠ (home.session e).state := fun heq =>
    Nat.ne_of_gt h.seated.state (congrArg Ref.index heq)
  exact h.written hg rfl hstore hwritten rfl rfl hrun hstate hpoint hd fun content =>
    ⟨rfl, rfl, hl, hne, rfl⟩

/-- A run that ends is put into the row with its outcome. -/
theorem Upheld.ends {ctx : RunContext} {base : SessionState} {run : WorkflowRun}
    {fault : Option Fault} (h : home.Upheld id e
      (before ++ .working ctx (home.session e).state base :: after)) (hw : home.Shares w)
    (hl : (home.session e).loaded = true) (hne : ctx.state ≠ (home.session e).state)
    (hsession : ctx.sessionId = id) (hrun : run.Of ctx)
    (he : e' = w.endRun run fault ctx.state (home.session e).state base e)
    (hm' : home.Modest e') (hg : home.Grows e e')
    (hd : Distinct e' (before ++ .ended ctx run :: after)) :
    home.Upheld id e' (before ++ .ended ctx run :: after) := by
  obtain ⟨content, hcontent, -⟩ := h.content
  obtain ⟨store, -, hstore, hlt, -⟩ := hcontent.table
  obtain ⟨q, s, readings, hwritten, hframe⟩ := endRun_writes (hw.2.trans hstore) hlt run fault
    ctx.state (home.session e).state base
  have hended : (run.runId, .ended fault run (e.states.get ctx.state)) ∈ e'.journal := by
    rw [he, journal_endRun]
    exact List.mem_cons_self
  have hkept : home.session e' = home.session e := by rw [he, hframe]; rfl
  have hcommitted : home.sessionState e' = e'.states.get (home.session e).state := by
    rw [sessionState, hkept]
  rw [← he, ← hcommitted] at hwritten
  refine h.written hg hkept hstore hwritten (by rw [he, hframe]) (hrun.sessionId.trans hsession)
    (hm'.runs _ _ _ _ hended) hm'.state (congrArg some hrun.runId.symm) hd fun content => ?_
  rw [← hkept] at hl hne
  exact ⟨hrun.runId, hl, hne, rfl, SessionRow.entry?_runsWith run _ content⟩

/-- A step of a run between points. -/
theorem Upheld.passes (h : home.Upheld id e (before ++ point :: after)) (hm : home.Modest e)
    (hm' : home.Modest e') (hp : home.Passes point e point' e') :
    home.Upheld id e' (before ++ point' :: after) := by
  have hg := hp.grows
  have hd := h.distinct.change hg.generated hp.fresh
  have hhead : point ∈ before ++ point :: after := by simp
  have hrest : ∀ p ∈ before ++ point' :: after, p = point' ∨ p ∈ before ++ point :: after := by
    intro p hmem
    simp only [List.mem_append, List.mem_cons] at hmem ⊢
    tauto
  cases hp with
  | call =>
    refine h.leaves hg rfl (fun _ => ⟨rfl, rfl⟩) (fun _ hc => hc.of_stores rfl) hd fun p hmem => ?_
    obtain rfl | hmem := hrest p hmem
    · exact .inr fun _ => trivial
    · exact .inl hmem
  | refuse hp =>
    obtain ⟨hr, -⟩ := h.prepareSession hp
    cases hr
  | enter hp =>
    obtain ⟨hr, hl, hkept⟩ := h.prepareSession hp
    cases hr
    have hstay : home.Grows e' e' :=
      .of_place rfl (fun _ => rfl) (Nat.le_refl _) (Nat.le_refl _) rfl
    refine hkept.leaves hstay rfl (fun _ => ⟨rfl, rfl⟩) (fun _ hc => hc) hd fun p hmem => ?_
    obtain rfl | hmem := hrest p hmem
    · exact .inr fun _ => ⟨rfl, rfl, hl⟩
    · exact .inl hmem
  | @begin w input runId token feed sessionId committed _ _ ctx run base hw hb =>
    obtain ⟨content, -, hrests⟩ := h.content
    obtain ⟨rfl, rfl, hl⟩ := hrests _ hhead
    exact h.begins hw hl hm.dated.1 hm'.state hg hb rfl hd
  | work ht =>
    obtain ⟨content, -, hrests⟩ := h.content
    obtain ⟨-, -, -, hne, -⟩ := hrests _ hhead
    exact h.acts ht hne
  | @leave w ctx committed base _ run fault hw hrun hterminal =>
    obtain ⟨content, -, hrests⟩ := h.content
    obtain ⟨hid, rfl, hl, hne, -⟩ := hrests _ hhead
    exact h.ends hw hl hne hid hrun rfl hm' hg hd
  | tell ht =>
    obtain ⟨content, -, hrests⟩ := h.content
    obtain ⟨-, -, hne, -⟩ := hrests _ hhead
    exact h.acts ht hne

/-- The announcement of a run puts it into the row as pending, unless it is refused. -/
theorem Upheld.announceRun (h : home.Upheld id e points) (hw : home.Shares w) (hm : home.Modest e)
    (hm' : home.Modest e') {r : Except Fault String} (ha : w.announceRun e = (r, e')) :
    (∃ fault, r = .error fault) ∧ home.Upheld id e' points ∨
      ∃ runId, r = .ok runId ∧ home.Upheld id e' (points ++ [.entering runId]) := by
  obtain ⟨content, hcontent, -⟩ := h.content
  obtain ⟨store, -, hstore, hlt, -⟩ := hcontent.table
  rcases announceRun_writes (hw.2.trans hstore) hlt ha with ⟨fault, rfl, rfl⟩ | ⟨fault, rfl, hp⟩ |
    ⟨sessionId, committed, e₁, q, s, readings, hp, hwritten, rfl, hr⟩
  · exact .inl ⟨⟨fault, rfl⟩, h⟩
  · rw [hw.prepareSession] at hp
    obtain ⟨hr, -⟩ := h.prepareSession hp
    cases hr
  · rw [hw.prepareSession] at hp
    have hnow : e₁.readClock.1.Valid := by
      rcases readClock_prepareSession hp with hclock | hclock
      · exact hclock ▸ hm.dated.1
      · exact hclock ▸ hm.dated.2
    obtain ⟨hplace, hl, h₁⟩ := h.prepareSession hp
    obtain ⟨rfl, rfl⟩ := Prod.mk.inj (Except.ok.inj hplace)
    let run : WorkflowRun := .pending (Ident.ofNat e₁.generated) sessionId w.id w.name e₁.readClock.1
    have hrun : run.Storable := WorkflowRun.Bare.storable ⟨nofun, rfl, rfl, rfl⟩ hnow
    have hshelved (content : Option (SessionState × List WorkflowRun))
        (hcontent : home.Shelved run.sessionId content e₁) :
        q = .ok () ∧ home.Shelved run.sessionId
          (some (home.sessionState e₁, runsWith run content))
          { e₁ with
            stores := e₁.stores.set store s
            readings
            generated := e₁.generated + 1 } :=
      hcontent.written hstore hwritten rfl hrun hm'.state
    obtain ⟨content₁, hcontent₁, -⟩ := h₁.content
    obtain ⟨rfl, -⟩ := hshelved content₁ hcontent₁
    refine .inr ⟨_, hr, ?_⟩
    rw [hr] at ha
    have hd := Turn.distinct (.call (.spawn hw ha)) h.distinct
    have hg : home.Grows e₁ { e₁ with
        stores := e₁.stores.set store s
        readings
        generated := e₁.generated + 1 } :=
      .of_place rfl (fun _ => rfl) (Nat.le_refl _) (Nat.le_succ _) (Pool.size_set ..)
    refine h₁.puts hg rfl (fun _ => rfl) (fun content hcontent => (hshelved content hcontent).2) hd
      fun p hmem => ?_
    rcases List.mem_append.1 hmem with hmem | hmem
    · refine .inl ⟨hmem, fun hid => ?_⟩
      exact (List.pairwise_append.1 hd.apart).2.2 p hmem _ (List.mem_singleton.2 rfl) _ hid rfl
    · exact .inr fun _ => List.mem_singleton.1 hmem ▸ trivial

/-- What is called from outside leaves the row as it is, or announces a run. -/
theorem Upheld.call {started : List Point} (h : home.Upheld id e points) (hm : home.Modest e)
    (hm' : home.Modest e') (hc : home.Call .work e started e') :
    home.Upheld id e' (points ++ started) := by
  have hg := hc.grows
  have hd : Distinct e' (points ++ started) := Turn.distinct (.call hc) h.distinct
  have hadd {point : Point} (hpoint : ∀ content, home.Rests id content e' point) :
      ∀ p ∈ points ++ [point], p ∈ points ∨ ∀ content, home.Rests id content e' p := by
    intro p hmem
    rcases List.mem_append.1 hmem with hmem | hmem
    · exact .inl hmem
    · exact .inr (List.mem_singleton.1 hmem ▸ hpoint)
  cases hc with
  | run => exact h.leaves hg rfl (fun _ => ⟨rfl, rfl⟩) (fun _ hc => hc) hd (hadd fun _ => trivial)
  | stream =>
    exact h.leaves hg rfl (fun _ => ⟨rfl, rfl⟩) (fun _ hc => hc.of_stores rfl) hd
      (hadd fun _ => trivial)
  | spawn hw ha =>
    obtain ⟨⟨fault, hr⟩, -⟩ | ⟨runId, hr, hkept⟩ := h.announceRun hw hm hm' ha
    · cases hr
    · cases hr
      exact hkept
  | refuse hw ha =>
    obtain ⟨-, hkept⟩ | ⟨runId, hr, -⟩ := h.announceRun hw hm hm' ha
    · rwa [List.append_nil]
    · cases hr
  | other ho =>
    have hsession : home.session e' = home.session e := session_apart ho.toApart
    refine h.leaves hg (by rw [sessionId, sessionId, hsession])
      (fun _ => ⟨hsession, (spares_apart ho.toApart h.seated.state).committed⟩)
      (fun content hcontent => ?_) hd fun p hmem => .inl (by simpa using hmem)
    obtain ⟨store, rows, hstore, hlt, hget, hrows⟩ := hcontent.table
    exact ⟨store, rows, hstore, (hg.seated h.seated).store store hstore,
      (ho.get_store hstore).trans hget, hrows⟩

/-- A deed of runs or others keeps the row in order. -/
theorem Upheld.turn {points' : List Point} (h : home.Upheld id e points) (hm : home.Modest e)
    (hm' : home.Modest e') (ht : home.Turn .work e points e' points') : home.Upheld id e' points' := by
  cases ht with
  | call hc => exact h.call hm hm' hc
  | pass hp => exact h.passes hm hm' hp

end Workflow

end WorkflowEngine
