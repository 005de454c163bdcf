import WorkflowEngine.Proofs.Session.Memory

/-!
# The history of a session

Any number of runs on one session that is kept in memory, whose fibers move in any order, while the
session may be renamed. Main statement: the record of the session holds every run that was started
once, in the order in which they were first written; what is stored of a run moves from pending to
running to its outcome and is the outcome before anybody is told of it.
-/

namespace WorkflowEngine

/-- How what is stored of a run may move. -/
inductive RunStatus.Forward : Option RunStatus → Option RunStatus → Prop
  | announced : Forward none (some .pending)
  | begun : Forward none (some .running)
  | started : Forward (some .pending) (some .running)
  | ended {status : RunStatus} (h : status.isTerminal = true) : Forward (some .running) (some status)

/-- An outcome moves no further. -/
theorem RunStatus.Forward.not_terminal {status : RunStatus} {next : Option RunStatus}
    (h : Forward (some status) next) : status.isTerminal = false := by
  cases h <;> rfl

namespace SessionRecord

/-- A record that a run was put into, and nothing else. -/
structure Put (found : Option SessionRecord) (run : WorkflowRun) (record : SessionRecord) :
    Prop where
  entry : record.run? run.runId = some run
  others : ∀ runId, runId ≠ run.runId → record.run? runId = found.bind (·.run? runId)
  runIds : record.runIds =
    let ids := (found.map SessionRecord.runIds).getD []
    if run.runId ∈ ids then ids else ids ++ [run.runId]
  sessionName : record.sessionName = found.bind (·.sessionName)
  kept : ∀ r, found = some r → record.sessionId = r.sessionId ∧ record.workflowId = r.workflowId ∧
    record.createdAt = r.createdAt

section Put

variable {found : Option SessionRecord} {run : WorkflowRun} {record : SessionRecord}

theorem Put.mem_runIds (h : Put found run record) {runId : String} : runId ∈ record.runIds ↔
    runId ∈ (found.map SessionRecord.runIds).getD [] ∨ runId = run.runId := by
  rw [h.runIds]
  dsimp only
  split
  · rename_i hin
    exact ⟨.inl, fun h => h.elim (fun h => h) fun h => h ▸ hin⟩
  · simp

theorem Put.nodup_runIds (h : Put found run record)
    (hn : ((found.map SessionRecord.runIds).getD []).Nodup) : record.runIds.Nodup := by
  rw [h.runIds]
  dsimp only
  split
  · exact hn
  · rename_i hnot
    exact List.nodup_append.2 ⟨hn, by simp, fun a ha b hb hab =>
      hnot (List.mem_singleton.1 hb ▸ hab ▸ ha)⟩

end Put

end SessionRecord

namespace Workflow

open Situation (Kind)

variable {home w : Workflow} {e e' : Engine} {kind : Kind} {id : String}
  {points points' before after : List Point} {point point' : Point}

theorem put_recordWith (w : Workflow) (run : WorkflowRun) (state : SessionState)
    (found : Option SessionRecord) (first last : Instant) :
    SessionRecord.Put found run (w.recordWith run state found first last) where
  entry := run?_recordWith_self
  others := fun _ h => run?_recordWith_ne h
  runIds := runIds_recordWith
  sessionName := sessionName_recordWith
  kept := fun r h => by
    subst h
    exact ⟨rfl, rfl, rfl⟩

/-- What a deed does to the record of a session: nothing, or the session gets a name, or one run is
put in, further than it was. -/
inductive Advances (kind : Kind) (r r' : Option SessionRecord) : Prop
  | kept (h : r' = r)
  | named (hk : kind = .rename) {record : SessionRecord} (h : r = some record) (name : String)
      (now : Instant) (h' : r' = some { record with sessionName := some name, updatedAt := now })
  | put (hk : kind = .work) {run : WorkflowRun} {record : SessionRecord} (h : r' = some record)
      (hput : SessionRecord.Put r run record)
      (hf : RunStatus.Forward ((r.bind (·.run? run.runId)).map WorkflowRun.status)
        (some run.status))

/-! ## Points of runs in a record -/

/-- What the record of a session holds of a run at a point. -/
def Agrees (id : String) (entry : String → Option WorkflowRun) : Point → Prop
  | .called | .refused | .aborted => True
  | .entering runId => ∀ run, entry runId = some run → run.status = .pending
  | .starting runId sessionId _ =>
    sessionId = id ∧ ∀ run, entry runId = some run → run.status = .pending
  | .working ctx _ _ => ctx.sessionId = id ∧ ∃ run, entry ctx.runId = some run ∧
    run.status = .running
  | .ended ctx run => run.runId = ctx.runId ∧ run.status.isTerminal = true ∧
    entry ctx.runId = some run

theorem Agrees.congr {entry entry' : String → Option WorkflowRun} (h : Agrees id entry point)
    (heq : ∀ runId, point.runId? = some runId → entry' runId = entry runId) :
    Agrees id entry' point := by
  cases point with
  | called => trivial
  | entering runId => exact fun run hr => h run (heq _ rfl ▸ hr)
  | starting runId sessionId committed => exact ⟨h.1, fun run hr => h.2 run (heq _ rfl ▸ hr)⟩
  | working ctx committed base =>
    obtain ⟨hid, run, hr, hs⟩ := h
    exact ⟨hid, run, (heq _ rfl).trans hr, hs⟩
  | ended ctx run => exact ⟨h.1, h.2.1, (heq _ rfl).trans h.2.2⟩
  | refused => trivial
  | aborted => trivial

/-- What the journal tells of the runs is in the record. -/
structure Accounted (home : Workflow) (id : String) (e : Engine) : Prop where
  begun : ∀ runId base, (runId, .began base) ∈ e.journal → runId ∈ home.runIds id e
  ended : ∀ runId fault run final, (runId, .ended fault run final) ∈ e.journal →
    run.runId = runId ∧ run.status.isTerminal = true ∧ home.stored? id runId e = some run

/-- What holds of a session in memory and of its runs, whatever happens. -/
structure Kept (home : Workflow) (id : String) (e : Engine) (points : List Point) : Prop where
  seated : home.Seated e
  memory : home.InMemory e
  session : home.sessionId e = id
  filed : ∀ id, home.Filed id e
  distinct : Distinct e points
  unique : (home.runIds id e).Nodup
  given : ∀ runId ∈ home.runIds id e, ∀ n, e.generated ≤ n → runId ≠ Ident.ofNat n
  points : ∀ point ∈ points, Agrees id (home.stored? id · e) point
  accounted : home.Accounted id e

/-- Calls that leave the runs of the record as they are, and what they note in the journal. -/
theorem Kept.same (h : home.Kept id e points) (hg : home.Grows e e') (hm : home.InMemory e')
    (hsession : home.sessionId e' = home.sessionId e) (hfiled : ∀ id, home.Filed id e')
    (hentry : ∀ runId, home.stored? id runId e' = home.stored? id runId e)
    (hids : home.runIds id e' = home.runIds id e)
    (hj : ∀ entry ∈ e'.journal, entry ∈ e.journal ∨ entry.2.isInner = true)
    (hd : Distinct e' points')
    (hp : ∀ point ∈ points', Agrees id (home.stored? id · e) point) : home.Kept id e' points' := by
  have hold {entry : String × Happening} (he : entry ∈ e'.journal) (hi : entry.2.isInner = false) :
      entry ∈ e.journal := (hj entry he).resolve_right fun h => by simp [h] at hi
  refine ⟨hg.seated h.seated, hm, hsession.trans h.session, hfiled, hd, hids ▸ h.unique, ?_,
    fun point hmem => ?_, ⟨fun runId base hb => ?_, fun runId fault run final he => ?_⟩⟩
  · intro runId hmem n hn
    exact h.given runId (hids ▸ hmem) n (Nat.le_trans hg.generated hn)
  · exact (hp point hmem).congr fun runId _ => hentry runId
  · exact hids ▸ h.accounted.begun runId base (hold hb rfl)
  · obtain ⟨hid, hterminal, hr⟩ := h.accounted.ended runId fault run final (hold he rfl)
    exact ⟨hid, hterminal, (hentry runId).trans hr⟩

/-- Calls that leave the records as they are. -/
theorem Kept.leaves (h : home.Kept id e points) (hg : home.Grows e e') (hl : home.Leaves e e')
    (hj : ∀ entry ∈ e'.journal, entry ∈ e.journal ∨ entry.2.isInner = true)
    (hd : Distinct e' points')
    (hp : ∀ point ∈ points', Agrees id (home.stored? id · e) point) : home.Kept id e' points' :=
  h.same hg hl.memory hl.session (fun id r hr => h.filed id r (hl.record id ▸ hr))
    (fun runId => by rw [stored?, stored?, hl.record]) (by rw [runIds, runIds, hl.record]) hj hd hp

/-- A run is put into the record, further than it was. -/
theorem Kept.puts {run : WorkflowRun} (h : home.Kept id e (before ++ after))
    (hg : home.Grows e e') (hp : home.Puts w run e e') (hid : run.sessionId = id)
    (hf : RunStatus.Forward ((home.stored? id run.runId e).map WorkflowRun.status)
      (some run.status))
    (hgiven : Given e' run.runId)
    (hbegun : ∀ runId base, (runId, .began base) ∈ e'.journal →
      runId = run.runId ∨ (runId, .began base) ∈ e.journal)
    (hended : ∀ runId fault run' final, (runId, .ended fault run' final) ∈ e'.journal →
      runId = run.runId ∧ run' = run ∧ run.status.isTerminal = true ∨
        (runId, .ended fault run' final) ∈ e.journal)
    (hd : Distinct e' (before ++ point :: after)) (hpoint : point.runId? = some run.runId)
    (hagrees : ∀ entry : String → Option WorkflowRun, entry run.runId = some run →
      Agrees id entry point) :
    home.Kept id e' (before ++ point :: after) ∧
      Advances .work (home.record? id e) (home.record? id e') := by
  subst hid
  obtain ⟨state, first, last, hrecord⟩ := hp.record
  let record := w.recordWith run state (home.record? run.sessionId e) first last
  have hput : SessionRecord.Put (home.record? run.sessionId e) run record :=
    put_recordWith w run state _ first last
  have hself := hp.stored?_self
  have hentry {runId : String} (hne : runId ≠ run.runId) :
      home.stored? run.sessionId runId e' = home.stored? run.sessionId runId e := by
    rw [stored?, hrecord]
    exact hput.others runId hne
  have hids : home.runIds run.sessionId e' = record.runIds := by
    rw [Workflow.runIds, hrecord]
    rfl
  have hmem (runId : String) : runId ∈ home.runIds run.sessionId e' ↔
      runId ∈ home.runIds run.sessionId e ∨ runId = run.runId := by
    rw [hids]
    exact hput.mem_runIds
  refine ⟨⟨hg.seated h.seated, hp.memory, hp.session.trans h.session, fun id r hr => ?_, hd, ?_, ?_,
    fun p hmem => ?_, ⟨fun runId base hb => ?_, fun runId fault run' final he => ?_⟩⟩,
    .put rfl hrecord hput hf⟩
  · by_cases hne : id = run.sessionId
    · subst hne
      rw [hrecord] at hr
      rw [← Option.some.inj hr]
      exact sessionId_recordWith (h.filed run.sessionId)
    · exact h.filed id r (hp.others id hne ▸ hr)
  · rw [hids]
    exact hput.nodup_runIds h.unique
  · intro runId hin n hn
    rcases (hmem runId).1 hin with hin | rfl
    · exact h.given runId hin n (Nat.le_trans hg.generated hn)
    · obtain ⟨m, hm, heq⟩ := hgiven
      exact fun hn' => Nat.ne_of_lt (Nat.lt_of_lt_of_le hm hn)
        (Ident.ofNat_injective (heq.symm.trans hn'))
  · rcases List.mem_cons.1 (List.perm_middle.mem_iff.1 hmem) with rfl | hmem
    · exact hagrees _ hself
    · exact (h.points p hmem).congr fun runId hid => hentry fun heq =>
        hd.others hpoint p hmem (heq ▸ hid)
  · rcases hbegun runId base hb with rfl | hb
    · exact (hmem _).2 (.inr rfl)
    · exact (hmem _).2 (.inl (h.accounted.begun runId base hb))
  · rcases hended runId fault run' final he with ⟨rfl, rfl, hterminal⟩ | he
    · exact ⟨rfl, hterminal, hself⟩
    · obtain ⟨hid, hterminal, hr⟩ := h.accounted.ended runId fault run' final he
      refine ⟨hid, hterminal, (hentry fun heq => ?_).trans hr⟩
      -- A run with its outcome goes no further.
      subst heq
      rw [hr] at hf
      have := RunStatus.Forward.not_terminal hf
      rw [hterminal] at this
      cases this

/-- The record without one of the runs. -/
theorem Kept.without (h : home.Kept id e (before ++ point :: after)) :
    home.Kept id e (before ++ after) := by
  have hsub : (before ++ after).Sublist (before ++ point :: after) :=
    (List.Sublist.refl before).append (List.sublist_cons_self point after)
  exact { h with
    distinct := ⟨fun p hp => h.distinct.given p (hsub.subset hp), h.distinct.apart.sublist hsub⟩
    points := fun p hp => h.points p (hsub.subset hp) }

/-- No run is stored under an identifier that is yet to be given. -/
theorem Kept.stored?_fresh (h : home.Kept id e points) {n : Nat} (hn : e.generated ≤ n) :
    home.stored? id (Ident.ofNat n) e = none :=
  stored?_of_not_mem fun hmem => h.given _ hmem n hn rfl

theorem Kept.change (h : home.Kept id e (before ++ point :: after))
    (hp : Agrees id (home.stored? id · e) point') :
    ∀ p ∈ before ++ point' :: after, Agrees id (home.stored? id · e) p := by
  intro p hmem
  rcases List.mem_cons.1 (List.perm_middle.mem_iff.1 hmem) with rfl | hmem
  · exact hp
  · exact h.without.points p hmem

/-- A run with a new identifier may enter, whatever is stored. -/
private theorem Kept.agrees_fresh (h : home.Kept id e points) :
    Agrees id (home.stored? id · e) (.entering e.freshId.1) := by
  intro run hr
  have hnone : home.stored? id (Ident.ofNat e.generated) e = none := h.stored?_fresh (Nat.le_refl _)
  exact nomatch hnone.symm.trans hr

private theorem inner_of_acts {ctx : RunContext} {t : List Happening} (ht : ctx.Acts e t e') :
    ∀ entry ∈ e'.journal, entry ∈ e.journal ∨ entry.2.isInner = true := by
  intro entry he
  rw [ht.journal] at he
  rcases List.mem_append.1 he with he | he
  · obtain ⟨a, ha, rfl⟩ := List.mem_map.1 (List.mem_reverse.1 he)
    exact .inr (ht.inner a ha)
  · exact .inl he

/-- A step of a run between points. -/
theorem Kept.passes (h : home.Kept id e (before ++ point :: after))
    (hp : home.Passes point e point' e') :
    home.Kept id e' (before ++ point' :: after) ∧
      Advances .work (home.record? id e) (home.record? id e') := by
  have hg := hp.grows
  have hd := h.distinct.change hg.generated hp.fresh
  have hpoint := h.points point (by simp)
  have hgiven (runId : String) (hid : point.runId? = some runId) : Given e' runId :=
    (h.distinct.given point (by simp) runId hid).mono hg.generated
  cases hp with
  | call =>
    have hl : home.Leaves e e.freshId.2 := h.memory.leaves rfl rfl
    exact ⟨h.leaves hg hl (fun _ => .inl) hd (h.change h.agrees_fresh), .kept (hl.record id)⟩
  | refuse hp =>
    obtain ⟨-, committed, hr⟩ := h.memory.prepareSession h.seated hp
    cases hr
  | enter hp =>
    have hj := journal_prepareSession hp
    obtain ⟨hl, committed, hr⟩ := h.memory.prepareSession h.seated hp
    cases hr
    exact ⟨h.leaves hg hl (fun _ he => .inl (hj ▸ he)) hd (h.change ⟨h.session, hpoint⟩),
      .kept (hl.record id)⟩
  | @begin w input runId token feed sessionId committed _ _ ctx run base hw hb =>
    obtain ⟨rfl, hpending⟩ := hpoint
    obtain ⟨hj, rfl, hsession, hrun, hid, hstatus, hputs⟩ :=
      h.memory.beginRun hw (h.filed sessionId) hb
    refine h.without.puts hg hputs hid ?_ ?_ ?_ ?_ hd (congrArg some hrun.symm) fun entry hentry =>
      ⟨hsession, run, hrun ▸ hentry, hstatus⟩
    · rw [hrun, hstatus]
      cases hentry : home.stored? sessionId ctx.runId e with
      | none => exact .begun
      | some run' =>
        have hs := hpending run' hentry
        simpa [hs] using RunStatus.Forward.started
    · exact hrun ▸ hgiven _ rfl
    · intro runId base' hmem
      rw [hj] at hmem
      rcases List.mem_cons.1 hmem with heq | hmem
      · cases heq
        exact .inl hrun.symm
      · exact .inr hmem
    · intro runId fault run' final hmem
      rw [hj] at hmem
      rcases List.mem_cons.1 hmem with heq | hmem
      · cases heq
      · exact .inr hmem
  | work ht =>
    have hl := h.memory.leaves ht.slots ht.stores
    exact ⟨h.leaves hg hl (inner_of_acts ht) hd (h.change hpoint), .kept (hl.record id)⟩
  | @leave w ctx committed base _ run fault hw hrun hterminal =>
    obtain ⟨hsession, run', hentry, hrunning⟩ := hpoint
    have hid : run.sessionId = id := hrun.sessionId.trans hsession
    have hputs := h.memory.endRun hw run fault ctx.state committed base (h.filed run.sessionId)
    have hj : (w.endRun run fault ctx.state committed base e).journal = _ := journal_endRun
    refine h.without.puts hg hputs hid ?_ ?_ ?_ ?_ hd (congrArg some hrun.runId.symm)
      fun entry hentry => ⟨hrun.runId, hterminal, hrun.runId ▸ hentry⟩
    · have hstatus : (home.stored? id ctx.runId e).map WorkflowRun.status = some .running := by
        simp [hentry, hrunning]
      rw [hrun.runId, hstatus]
      exact .ended hterminal
    · exact hrun.runId ▸ hgiven _ rfl
    · intro runId base' hmem
      rw [hj] at hmem
      rcases List.mem_cons.1 hmem with heq | hmem
      · cases heq
      · exact .inr hmem
    · intro runId fault' run'' final hmem
      rw [hj] at hmem
      rcases List.mem_cons.1 hmem with heq | hmem
      · cases heq
        exact .inl ⟨rfl, rfl, hterminal⟩
      · exact .inr hmem
  | tell ht =>
    have hl := h.memory.leaves ht.slots ht.stores
    exact ⟨h.leaves hg hl (inner_of_acts ht) hd (h.change hpoint), .kept (hl.record id)⟩

/-- A call from outside. -/
theorem Kept.call {started : List Point} (h : home.Kept id e points)
    (hc : home.Call kind e started e') (hk : kind = .work ∨ kind = .rename) :
    home.Kept id e' (points ++ started) ∧
      Advances kind (home.record? id e) (home.record? id e') := by
  have hg := hc.grows
  have hd : Distinct e' (points ++ started) := Turn.distinct (.call hc) h.distinct
  have hnone : ∀ p ∈ points ++ [], Agrees id (home.stored? id · e) p := by
    simpa using h.points
  have hadd {point : Point} (hp : Agrees id (home.stored? id · e) point) :
      ∀ p ∈ points ++ [point], Agrees id (home.stored? id · e) p :=
    List.forall_mem_append.2 ⟨h.points, List.forall_mem_singleton.2 hp⟩
  cases hc with
  | run =>
    have hl : home.Leaves e e := h.memory.leaves rfl rfl
    exact ⟨h.leaves hg hl (fun _ => .inl) hd (hadd trivial), .kept rfl⟩
  | stream =>
    have hl : home.Leaves e e.freshId.2 := h.memory.leaves rfl rfl
    exact ⟨h.leaves hg hl (fun _ => .inl) hd (hadd h.agrees_fresh), .kept (hl.record id)⟩
  | @spawn _ _ w runId hw ha =>
    have hsession := h.session
    obtain ⟨hj, ⟨fault, hr, -⟩ | ⟨runId', now, hr, hputs⟩⟩ :=
      h.memory.announceRun h.seated hw (h.filed _) ha
    · cases hr
    · cases hr
      have hfresh := hw.fresh_announceRun ha runId rfl
      obtain ⟨n, hn, hlt, heq⟩ := hfresh.resolve_left nofun
      have hnone : home.stored? id runId e = none := heq ▸ h.stored?_fresh hn
      have hkept : home.Kept id e (points ++ []) := by rwa [List.append_nil]
      refine hkept.puts hg hputs hsession ?_ ⟨n, hlt, heq⟩ ?_ ?_ hd rfl ?_
      · exact hnone ▸ .announced
      · exact fun runId base hmem => .inr (hj ▸ hmem)
      · exact fun runId fault run final hmem => .inr (hj ▸ hmem)
      · intro entry hentry run hr
        cases hentry.symm.trans hr
        rfl
  | refuse hw ha =>
    obtain ⟨hj, ⟨fault, hr, hl⟩ | ⟨runId', now, hr, -⟩⟩ :=
      h.memory.announceRun h.seated hw (h.filed _) ha
    · exact ⟨h.leaves hg hl (fun _ he => .inl (hj ▸ he)) hd hnone, .kept (hl.record id)⟩
    · cases hr
  | other ho =>
    have hl := h.memory.aside (hg.seated h.seated) ho
    exact ⟨h.leaves hg hl (fun _ he => .inl (ho.journal ▸ he)) hd hnone, .kept (hl.record id)⟩
  | @rename _ store hs sessionId name =>
    obtain ⟨hm', hrecord⟩ := h.memory.renameSession hs sessionId name (h.filed sessionId)
    have hfiled (id : String) : home.Filed id (e.renameSession store sessionId name).2 := by
      intro r hr
      rcases hrecord id with heq | ⟨record, now, hr₀, heq⟩
      · exact h.filed id r (heq ▸ hr)
      · cases heq.symm.trans hr
        exact h.filed id record hr₀
    rcases hrecord id with heq | ⟨record, now, hr₀, heq⟩
    · exact ⟨h.same hg hm' rfl hfiled (fun runId => by rw [stored?, stored?, heq])
        (by rw [runIds, runIds, heq]) (fun _ => .inl) hd hnone, .kept heq⟩
    · exact ⟨h.same hg hm' rfl hfiled (fun runId => by rw [stored?, stored?, heq, hr₀]; rfl)
        (by rw [runIds, runIds, heq, hr₀]; rfl) (fun _ => .inl) hd hnone,
        .named rfl hr₀ name now heq⟩
  | fresh => rcases hk with hk | hk <;> cases hk
  | attach sessionId => rcases hk with hk | hk <;> cases hk

/-- A deed of runs or others, or a renaming, keeps the record in order and moves it ahead. -/
theorem Kept.turn (h : home.Kept id e points) (ht : home.Turn kind e points e' points')
    (hk : kind = .work ∨ kind = .rename) :
    home.Kept id e' points' ∧ Advances kind (home.record? id e) (home.record? id e') := by
  cases ht with
  | call hc => exact h.call hc hk
  | pass hp => exact h.passes hp
  | abort ha => rcases hk with hk | hk <;> cases hk

/-- What is stored of a run moves ahead, any number of times. -/
theorem Advances.ahead {r r' : Option SessionRecord} (h : Advances kind r r') (runId : String) :
    Relation.ReflTransGen RunStatus.Forward ((r.bind (·.run? runId)).map WorkflowRun.status)
      ((r'.bind (·.run? runId)).map WorkflowRun.status) := by
  cases h with
  | kept h => rw [h]
  | named hk h name now h' =>
    rw [h, h']
    exact .refl
  | @put hk run record h hput hf =>
    rw [h]
    by_cases hid : runId = run.runId
    · subst hid
      rw [Option.bind_some, hput.entry]
      exact .single hf
    · rw [Option.bind_some, hput.others runId hid]

/-- The runs of a record stay in order, and new ones come last. -/
theorem Advances.prefix {r r' : Option SessionRecord} (h : Advances kind r r') :
    (r.map SessionRecord.runIds).getD [] <+: (r'.map SessionRecord.runIds).getD [] := by
  cases h with
  | kept h =>
    subst h
    exact List.prefix_refl _
  | named hk h name now h' =>
    rw [h, h']
    exact List.prefix_refl _
  | put hk h hput hf =>
    rw [h, Option.map_some, Option.getD_some, hput.runIds]
    dsimp only
    split
    · exact List.prefix_refl _
    · exact List.prefix_append _ _

end Workflow

namespace Situation

open Relation Workflow

variable {home : Workflow} {s₀ s s' : Situation}

/-- Runs start and go on, the session is renamed, and others act. -/
abbrev Proceeds (home : Workflow) : Situation → Situation → Prop :=
  ReflTransGen fun s s' => ∃ kind : Kind, (kind = .work ∨ kind = .rename) ∧ Deed home kind s s'

/-- No run has started yet, and the session is there, kept in memory under its identifier. No two
stored runs have one identifier, and none has one that is yet to be given. -/
structure Opening (home : Workflow) (s : Situation) : Prop where
  tasks : s.tasks = []
  journal : s.engine.journal = []
  seated : home.Seated s.engine
  memory : home.InMemory s.engine
  filed : ∀ id, home.Filed id s.engine
  unique : (home.runIds (home.sessionId s.engine) s.engine).Nodup
  unused : ∀ runId ∈ home.runIds (home.sessionId s.engine) s.engine,
    ∀ n, s.engine.generated ≤ n → runId ≠ Ident.ofNat n

/-- What the record of a session holds of the runs that were started. -/
structure Recorded (home : Workflow) (id : String) (s : Situation) : Prop where
  /-- No run stands there twice. -/
  unique : (home.runIds id s.engine).Nodup
  /-- Every run that began is there. -/
  begun : ∀ runId base, (runId, .began base) ∈ s.engine.journal → runId ∈ home.runIds id s.engine
  /-- A run that ended is there with its outcome. -/
  ended : ∀ runId fault run final, (runId, .ended fault run final) ∈ s.engine.journal →
    run.runId = runId ∧ run.status.isTerminal = true ∧
      home.stored? id runId s.engine = some run
  /-- So is one that is about to tell of its end. -/
  telling : ∀ ctx run, leaving ctx run ∈ s.tasks →
    run.status.isTerminal = true ∧ home.stored? id run.runId s.engine = some run
  /-- What a run gives its caller is what is stored of it. -/
  returned : ∀ run, .done (.ok run) ∈ s.tasks →
    run.status.isTerminal = true ∧ home.stored? id run.runId s.engine = some run

theorem Opening.kept (h : Opening home s) :
    home.Kept (home.sessionId s.engine) s.engine [] where
  seated := h.seated
  memory := h.memory
  session := rfl
  filed := h.filed
  distinct := .nil
  unique := h.unique
  given := h.unused
  points := by simp
  accounted := by constructor <;> simp [h.journal]

theorem Proceeds.kept (h₀ : Opening home s₀) (h : Proceeds home s₀ s) :
    ∃ points, Stand home points s ∧
      home.Kept (home.sessionId s₀.engine) s.engine points := by
  induction h with
  | refl => exact ⟨[], by rw [Stand, h₀.tasks]; exact .nil, h₀.kept⟩
  | tail _ hd ih =>
    obtain ⟨points, hstand, hkept⟩ := ih
    obtain ⟨kind, hk, hd⟩ := hd
    obtain ⟨points', hturn, hstand'⟩ := hd.turn hstand
    exact ⟨points', hstand', (hkept.turn hturn hk).1⟩

/-- A run that stands at its end stands so in the record. -/
private theorem recorded_of_ended {id : String} {points : List Point}
    (hkept : home.Kept id s.engine points) {ctx : RunContext} {run : WorkflowRun}
    (hp : .ended ctx run ∈ points) :
    run.status.isTerminal = true ∧ home.stored? id run.runId s.engine = some run := by
  obtain ⟨hid, hterminal, hentry⟩ := hkept.points _ hp
  exact ⟨hterminal, hid ▸ hentry⟩

theorem Kept.recorded {id : String} {points : List Point} (hstand : Stand home points s)
    (hkept : home.Kept id s.engine points) : Recorded home id s where
  unique := hkept.unique
  begun := hkept.accounted.begun
  ended := hkept.accounted.ended
  telling := fun ctx run hp => by
    obtain ⟨point, hmem, hat⟩ := hstand.point_of_mem hp
    obtain ⟨ctx', rfl⟩ := hat.ended_of_leaving s.engine
    exact recorded_of_ended hkept hmem
  returned := fun run hp => by
    obtain ⟨point, hmem, hat⟩ := hstand.point_of_mem hp
    obtain ⟨ctx', rfl⟩ := hat.ended_of_done
    exact recorded_of_ended hkept hmem

/-- What is stored of a session moves ahead. -/
theorem Proceeds.ahead (h₀ : Opening home s₀) (h : Proceeds home s₀ s)
    (h' : Proceeds home s s') :
    home.runIds (home.sessionId s₀.engine) s.engine <+:
        home.runIds (home.sessionId s₀.engine) s'.engine ∧
      ∀ runId, ReflTransGen RunStatus.Forward
        ((home.stored? (home.sessionId s₀.engine) runId s.engine).map WorkflowRun.status)
        ((home.stored? (home.sessionId s₀.engine) runId s'.engine).map WorkflowRun.status) := by
  induction h' with
  | refl => exact ⟨List.prefix_refl _, fun _ => .refl⟩
  | tail h' hd ih =>
    obtain ⟨kind, hk, hd⟩ := hd
    obtain ⟨points, hstand, hkept⟩ := Proceeds.kept h₀ (h.trans h')
    obtain ⟨points', hturn, -⟩ := hd.turn hstand
    have hadvances := (hkept.turn hturn hk).2
    exact ⟨ih.1.trans hadvances.prefix, fun runId => (ih.2 runId).trans (hadvances.ahead runId)⟩

/-- The record of a session in memory holds every run that was started exactly once, in the order
in which they were first written. What is stored of a run moves from pending to running to one
outcome, is the outcome before the end of the run is told, and is what the run gives its caller.
No write touches another run, the name of the session, its workflow or its time of creation. -/
theorem history_of_proceeds (h₀ : Opening home s₀) (h : Proceeds home s₀ s) :
    Recorded home (home.sessionId s₀.engine) s ∧
    (∀ w runId e, home.Shares w → w.announceRun s.engine = (.ok runId, e) →
      ∃ run, home.stored? (home.sessionId s₀.engine) runId e = some run ∧
        run.status = .pending) ∧
    (∀ kind s', kind = .work ∨ kind = .rename → Deed home kind s s' →
      Advances kind (home.record? (home.sessionId s₀.engine) s.engine)
        (home.record? (home.sessionId s₀.engine) s'.engine)) ∧
    ∀ s', Proceeds home s s' →
      home.runIds (home.sessionId s₀.engine) s.engine <+:
          home.runIds (home.sessionId s₀.engine) s'.engine ∧
        ∀ runId, ReflTransGen RunStatus.Forward
          ((home.stored? (home.sessionId s₀.engine) runId s.engine).map WorkflowRun.status)
          ((home.stored? (home.sessionId s₀.engine) runId s'.engine).map WorkflowRun.status) := by
  obtain ⟨points, hstand, hkept⟩ := Proceeds.kept h₀ h
  refine ⟨Kept.recorded hstand hkept, fun w runId e hw ha => ?_, fun kind s' hk hd => ?_,
    fun s' h' => Proceeds.ahead h₀ h h'⟩
  · rcases (hkept.memory.announceRun hkept.seated hw (hkept.filed _) ha).2 with
      ⟨fault, hr, -⟩ | ⟨runId', now, hr, hputs⟩
    · cases hr
    · cases hr
      exact ⟨_, hkept.session ▸ hputs.stored?_self, rfl⟩
  · obtain ⟨points', hturn, -⟩ := hd.turn hstand
    exact (hkept.turn hturn hk).2

/-- A workflow that gives a text after a while. -/
private def clerk (text : String) (ms : Nat) : Workflow where
  id := "clerk"
  name := "clerk"
  plan := .function fun _ _ => .sleep ms (.finish (.text text))
  store := some ⟨0⟩
  slot := ⟨0⟩

private def opened : Situation where
  engine :=
    { start := ⟨0, 0⟩
      states := ⟨[∅]⟩
      tokens := ⟨[{}]⟩
      slots := ⟨[{ id := "session", state := ⟨0⟩ }]⟩
      stores := ⟨[.memory ∅]⟩ }

/-- One run is announced, another one is called. -/
private def engaged : Situation where
  engine := ((clerk "a" 2).announceRun opened.engine).2
  tasks := [(clerk "a" 2).executeRun {} (Ident.ofNat 0) ⟨0⟩ none, (clerk "b" 1).run {} ⟨0⟩]

private def overlapping : Situation := ((((engaged.go 0).go 1).pass 1).go 1)

private def renamed : Situation :=
  { overlapping with engine := (overlapping.engine.renameSession ⟨0⟩ "session" "desk").2 }

/-- The run that was called ends first, and the session gets a name before the other one ends. -/
private def recorded : Situation := (renamed.pass 1).go 0

private theorem proceeds_of_works (h : Works home s s') : Proceeds home s s' := by
  induction h with
  | refl => exact .refl
  | tail _ hd ih => exact ih.tail ⟨.work, .inl rfl, hd⟩

private theorem proceeds_recorded : Proceeds (clerk "a" 2) opened recorded := by
  have hspawn : Works (clerk "a" 2) opened
      ⟨engaged.engine, [(clerk "a" 2).executeRun {} (Ident.ofNat 0) ⟨0⟩ none]⟩ :=
    .single (.spawn ⟨rfl, rfl⟩ {} ⟨0⟩ rfl)
  have hclone : (clerk "a" 2).Shares (clerk "b" 1) := ⟨rfl, rfl⟩
  have hcall : Works (clerk "a" 2) opened engaged := hspawn.tail (.run hclone {} ⟨0⟩)
  have hover : Works (clerk "a" 2) engaged overlapping :=
    (works_go engaged 0).trans <| (works_go _ 1).trans <| (works_pass _ 1).trans (works_go _ 1)
  have hrename : Proceeds (clerk "a" 2) overlapping renamed :=
    .single ⟨.rename, .inr rfl, .rename rfl "session" "desk"⟩
  have hend : Works (clerk "a" 2) renamed recorded := (works_pass _ 1).trans (works_go _ 0)
  exact (proceeds_of_works (hcall.trans hover)).trans (hrename.trans (proceeds_of_works hend))

/-- Two overlapping runs stand in the record in the order in which they were first written, each
with its outcome, and the session has its name. -/
theorem history_of_two_runs :
    Opening (clerk "a" 2) opened ∧ Proceeds (clerk "a" 2) opened recorded ∧
    Recorded (clerk "a" 2) "session" recorded ∧
    (clerk "a" 2).runIds "session" recorded.engine = [Ident.ofNat 0, Ident.ofNat 1] ∧
    (((clerk "a" 2).record? "session" recorded.engine).bind (·.sessionName)) = some "desk" := by
  have hopening : Opening (clerk "a" 2) opened := by
    refine ⟨rfl, rfl, ⟨by decide, by decide, ?_⟩, ⟨⟨0⟩, ∅, rfl, by decide, rfl⟩, ?_, by decide, ?_⟩
    · rintro store ⟨⟩
      decide
    · exact fun id r hr => nomatch hr
    · exact fun runId hmem => nomatch hmem
  exact ⟨hopening, proceeds_recorded, (history_of_proceeds hopening proceeds_recorded).1,
    by decide +kernel, by decide +kernel⟩

end Situation

end WorkflowEngine
