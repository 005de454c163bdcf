import WorkflowEngine.Proofs.Node.Joining
import WorkflowEngine.Proofs.Session.Merge
import WorkflowEngine.Proofs.Session.Walls

/-!
# Isolated sessions

Sessions may begin anew at any time, with runs of the earlier ones under way, and a session may be
attached where no run has begun yet. Main statement: then everything that a session comes to is made
of the state given at the start, of what was stored for it, and of what its own completed runs
changed. A session that is attached where runs of another one have begun takes over their state.
-/

namespace WorkflowEngine.Situation

open Relation Workflow

variable {home : Workflow} {own : String} {s₀ s s' : Situation} {j : Journal} {used : Bool}
  {kind : Kind} {e e' : Engine} {points points' : List Point} {P : SessionState → Prop}

/-- The states that a session may come to by itself: the state at hand at the start, the empty one
and what was stored for the session, and what becomes of them when stored entries are taken over,
when a completed run of the session is merged, and when a table gives them back. -/
inductive Owned (home : Workflow) (own : String) (s₀ : Situation) (j : Journal) :
    SessionState → Prop
  | given : Owned home own s₀ j (home.sessionState s₀.engine)
  | empty : Owned home own s₀ j ∅
  | stored {held : Held} {st : SessionState} (h : (home.storeOf s₀.engine).holding own = some held)
      (hst : held.state? = some st) : Owned home own s₀ j st
  | reread {st st' : SessionState} (ht : (home.storeOf s₀.engine).isTable = true)
      (h : Owned home own s₀ j st) (hst : st.reread? = some st') : Owned home own s₀ j st'
  | override {st st' : SessionState} (h : Owned home own s₀ j st) (h' : Owned home own s₀ j st') :
      Owned home own s₀ j (st.insertMany st'.entries)
  | merge {st base final : SessionState} (h : Owned home own s₀ j st)
      (hbase : Owned home own s₀ j base) (hrun : j.Completed own base final) :
      Owned home own s₀ j (SessionState.merge st base final)

theorem Owned.closed : Closed own j (Owned home own s₀ j) :=
  ⟨.empty, fun _ _ => .override, fun _ _ _ => .merge⟩

/-- A key that is not there at the start and that no run of the session sets is never there. -/
theorem Owned.get?_eq_none {key : String} {st : SessionState} (h : Owned home own s₀ j st)
    (hgiven : (home.sessionState s₀.engine).get? key = none)
    (hstored : ∀ held st, (home.storeOf s₀.engine).holding own = some held →
      held.state? = some st → st.get? key = none)
    (hruns : ∀ base final, j.Completed own base final → base.get? key = none →
      final.get? key = none)
    (hreread : (home.storeOf s₀.engine).isTable = true → ∀ st st' : SessionState,
      st.reread? = some st' → st.get? key = none → st'.get? key = none) :
    st.get? key = none := by
  induction h with
  | given => exact hgiven
  | empty => rfl
  | stored h hst => exact hstored _ _ h hst
  | reread ht _ hst ih => exact hreread ht _ _ hst ih
  | @override st st' _ _ ih ih' =>
    have hnot : key ∉ st'.entries.map Prod.fst := fun hmem => by
      have hsome : (st'.get? key).isSome = true := KeyMap.mem_keys.1 hmem
      rw [ih'] at hsome
      cases hsome
    exact (KeyMap.get?_insertMany_of_notMem hnot).trans ih
  | merge _ _ hrun ih ihbase =>
    rw [SessionState.get?_merge]
    split
    · exact ih
    · exact hruns _ _ hrun ihbase

/-- No run has started, and the session has not taken over what is stored for it. -/
structure Unopened (home : Workflow) (s : Situation) : Prop where
  tasks : s.tasks = []
  journal : s.engine.journal = []
  seated : home.Seated s.engine
  store : home.store.isSome = true
  filed : (home.storeOf s.engine).Filed
  loaded : (home.session s.engine).loaded = false

/-- What happens as long as no session is attached, on either side of a session, where a run of the
other side may have begun; with whether one has on the state at hand, but for the last deed. -/
inductive Walled (home : Workflow) (own : String) (s₀ : Situation) : Bool → Situation → Prop
  | start : Walled home own s₀ false s₀
  | deed {used : Bool} {kind : Kind} {s s' : Situation} (h : Walled home own s₀ used s)
      (hd : Deed home kind s s') (hk : kind ≠ .fresh)
      (hattach : ∀ id, kind = .attach id → (used || (home.session s.engine).loaded) = true →
        (id = own ↔ home.sessionId s.engine = own)) :
      Walled home own s₀ (used || (home.session s.engine).loaded) s'
  | fresh {used : Bool} {s s' : Situation} (h : Walled home own s₀ used s)
      (hd : Deed home .fresh s s') : Walled home own s₀ false s'

/-- The runs are on their sides of the session. -/
structure Guarded (home : Workflow) (own : String) (P : SessionState → Prop) (used : Bool)
    (e : Engine) (points : List Point) : Prop where
  distinct : Distinct e points
  sides : ∃ side, home.Walls own P used side e ∧ ∀ point ∈ points, point.Placed own P side e

theorem Unopened.guarded (h : Unopened home s₀) :
    Guarded home own (Owned home own s₀ j) false s₀.engine [] := by
  refine ⟨.nil, Function.update (fun _ => .outside) (home.session s₀.engine).state .blank,
    ⟨h.seated, h.store, ⟨h.filed, fun _ _ hheld hst => .stored hheld hst,
      fun ht _ _ hst hr => .reread ht hst hr⟩, ?_, fun r _ hside => ?_, by simp [h.journal]⟩,
    by simp⟩
  · rw [h.loaded]
    exact Function.update_self ..
  · by_cases hr : r = (home.session s₀.engine).state
    · subst hr
      exact .given
    · rw [Function.update_of_ne hr] at hside
      simp at hside

/-- Every point but the one that passes stays on its side. -/
private theorem placed_of_shifts {side side' : Ref SessionState → Side} {actor : Option String}
    {before after : List Point} {point point' : Point} (hs : Shifts actor side side' e e')
    (hpoint' : point'.Placed own P side' e')
    (hall : ∀ q ∈ before ++ point :: after, q.Placed own P side e) :
    ∀ q ∈ before ++ point' :: after, q.Placed own P side' e' := by
  intro q hq
  rcases List.mem_cons.1 (List.perm_middle.mem_iff.1 hq) with rfl | hq
  · exact hpoint'
  · exact (hall q (List.perm_middle.mem_iff.2 (List.mem_cons_of_mem _ hq))).mono hs

theorem Guarded.turn (h : Guarded home own P used e points)
    (ht : home.Turn kind e points e' points') (hP : Closed own j P) (hj : ∀ a ∈ e'.journal, a ∈ j)
    (hk : kind ≠ .fresh)
    (hattach : ∀ id, kind = .attach id → (used || (home.session e).loaded) = true →
      (id = own ↔ home.sessionId e = own)) :
    Guarded home own P (used || (home.session e).loaded) e' points' := by
  obtain ⟨side, hwalls, hplaced⟩ := h.sides
  refine ⟨ht.distinct h.distinct, ?_⟩
  cases ht with
  | call hc =>
    obtain ⟨side', hs, hw, hstarted⟩ := hwalls.call hc hP hk hattach
    refine ⟨side', hw, fun q hq => ?_⟩
    rcases List.mem_append.1 hq with hq | hq
    · exact (hplaced q hq).mono hs
    · exact hstarted q hq
  | pass hp =>
    obtain ⟨side', hs, hw, hpoint'⟩ := hwalls.passes (hplaced _ (by simp)) hp hP hj
    exact ⟨side', hw, placed_of_shifts hs hpoint' hplaced⟩
  | abort ha =>
    have hpoint := hplaced _ (List.mem_append_right _ (List.mem_cons_self ..))
    cases ha with
    | work hacts =>
      obtain ⟨hs, hw⟩ := hwalls.acts hpoint.2.1.2 hacts
      exact ⟨side, hw, placed_of_shifts hs trivial hplaced⟩
    | again =>
      obtain ⟨side', hs, hw⟩ :=
        hwalls.aside hwalls.seated hwalls.keeps rfl (fun _ _ => rfl) (Nat.le_refl _) rfl
      exact ⟨side', hw, placed_of_shifts hs trivial hplaced⟩

theorem Guarded.fresh (h : Guarded home own P used e points)
    (ht : home.Turn .fresh e points e' points') (hP : Closed own j P) :
    Guarded home own P false e' points' := by
  obtain ⟨side, hwalls, hplaced⟩ := h.sides
  have hseated := ht.grows.seated hwalls.seated
  refine ⟨ht.distinct h.distinct, ?_⟩
  cases ht with
  | call hc =>
    cases hc with
    | fresh =>
      obtain ⟨side', hs, hw⟩ := hwalls.newSession hP hseated
      exact ⟨side', hw, fun q hq => (hplaced q (by simpa using hq)).mono hs⟩

/-- As long as the walls stand, the runs are on their sides of the session. -/
theorem Walled.guarded (h₀ : Unopened home s₀) (h : Walled home own s₀ used s) :
    ∃ points, Stand home points s ∧ ∀ j : Journal, (∀ a ∈ s.engine.journal, a ∈ j) →
      Guarded home own (Owned home own s₀ j) used s.engine points := by
  induction h with
  | start => exact ⟨[], by rw [Stand, h₀.tasks]; exact .nil, fun j _ => h₀.guarded⟩
  | deed _ hd hk hattach ih =>
    obtain ⟨points, hstand, hall⟩ := ih
    obtain ⟨points', ht, hstand'⟩ := hd.turn hstand
    exact ⟨points', hstand', fun j hj =>
      (hall j fun a ha => hj a (ht.journal a ha)).turn ht Owned.closed hj hk hattach⟩
  | fresh _ hd ih =>
    obtain ⟨points, hstand, hall⟩ := ih
    obtain ⟨points', ht, hstand'⟩ := hd.turn hstand
    exact ⟨points', hstand', fun j hj =>
      (hall j fun a ha => hj a (ht.journal a ha)).fresh ht Owned.closed⟩

/-! ## Working copies -/

/-- A call from outside changes no working copy. -/
theorem Guarded.copy_call {started : List Point} {side : Ref SessionState → Side}
    {r : Ref SessionState} {runId : String} (hw : home.Walls own P used side e)
    (hc : home.Call kind e started e') (hP : Closed own j P)
    (hr : r.index < e.states.items.length) (hcopy : side r = .copy runId) :
    e'.states.get r = e.states.get r := by
  cases kind with
  | fresh =>
    cases hc with
    | fresh => exact Pool.get_append_left hr _
  | attach id =>
    cases hc with
    | attach => rfl
  | work | abort | rename =>
    obtain ⟨side', hs, -⟩ := hw.call hc hP nofun nofun
    exact hs.copies r runId hr hcopy nofun

/-- What happens to the working copy of a run: nothing, unless it is a move of the run itself. -/
theorem Guarded.copy {ctx : RunContext} {committed : Ref SessionState} {base : SessionState}
    {i : Nat} (h : Guarded home own P used s.engine points) (hstand : Stand home points s)
    (hd : Deed home kind s s') (hP : Closed own j P) (hj : ∀ a ∈ s'.engine.journal, a ∈ j)
    (hi : points[i]? = some (.working ctx committed base)) :
    s'.engine.states.get ctx.state = s.engine.states.get ctx.state ∨
      ∃ p, s.tasks[i]? = some p ∧
        ((∃ p', Fiber.Moves p s.engine p' s'.engine) ∨ Fiber.Crashes p s.engine s'.engine) := by
  obtain ⟨side, hwalls, hplaced⟩ := h.sides
  obtain ⟨-, ⟨hlt, hcopy⟩, -⟩ := hplaced _ (List.mem_of_getElem? hi)
  have hcall {kind : Kind} {started : List Point} {e' : Engine}
      (hc : home.Call kind s.engine started e') :
      e'.states.get ctx.state = s.engine.states.get ctx.state :=
    Guarded.copy_call hwalls hc hP hlt hcopy
  cases hd with
  | run hw input token => exact .inl rfl
  | stream hw input token feed => exact .inl rfl
  | spawn hw input token ha => exact .inl (hcall (.spawn hw ha))
  | refuse hw ha => exact .inl (hcall (.refuse hw ha))
  | other ho => exact .inl (hcall (.other ho))
  | rename hs sessionId name => exact .inl (hcall (.rename hs sessionId name))
  | fresh hw => exact .inl (hw.newSession s.engine ▸ hcall .fresh)
  | attach hw sessionId => exact .inl (hw.attach sessionId s.engine ▸ hcall (.attach sessionId))
  | @move e e' p p' before after hm =>
    by_cases heq : before.length = i
    · subst heq
      exact .inr ⟨p, by simp, .inl ⟨p', hm⟩⟩
    · -- The run that moves is another one.
      have hp : (before ++ p :: after)[before.length]? = some p := by simp
      obtain ⟨q, hq, hat⟩ := hstand.point_of_task hp
      obtain ⟨q', hpass, -⟩ := hat.moves hm
      obtain ⟨side', hs, -⟩ :=
        hwalls.passes (hplaced q (List.mem_of_getElem? hq)) hpass hP hj
      exact .inl (hs.copies _ _ hlt hcopy (h.distinct.ne_of_ne hi hq (Ne.symm heq) rfl))
  | @abort e e' p before after message hc =>
    by_cases heq : before.length = i
    · subst heq
      exact .inr ⟨p, by simp, .inr hc⟩
    · have hp : (before ++ p :: after)[before.length]? = some p := by simp
      obtain ⟨q, hq, hat⟩ := hstand.point_of_task hp
      refine .inl ?_
      have hqid := h.distinct.ne_of_ne hi hq (Ne.symm heq) rfl
      have hplacedq := hplaced q (List.mem_of_getElem? hq)
      cases hat.crashes hc with
      | work hacts =>
        obtain ⟨hs, -⟩ := hwalls.acts hplacedq.2.1.2 hacts
        exact hs.copies _ _ hlt hcopy hqid
      | again => rfl

/-- What the runs of a session and its record hold is the session's own. -/
structure Isolated (home : Workflow) (own : String) (s₀ s : Situation) (points : List Point) :
    Prop where
  stand : Stand home points s
  /-- A run of the session that is about to begin begins on a state of the session. -/
  starting : ∀ runId committed, .starting runId own committed ∈ points →
    Owned home own s₀ s.engine.journal (s.engine.states.get committed)
  /-- So did one that is under way. -/
  working : ∀ ctx committed base, .working ctx committed base ∈ points → ctx.sessionId = own →
    (ctx.runId, .began base) ∈ s.engine.journal ∧ Owned home own s₀ s.engine.journal base
  /-- So did one that has ended. -/
  ended : ∀ runId fault run final, (runId, .ended fault run final) ∈ s.engine.journal →
    run.sessionId = own →
    ∃ base, (runId, .began base) ∈ s.engine.journal ∧ Owned home own s₀ s.engine.journal base
  /-- The working copy of a run changes in its own moves alone. -/
  copies : ∀ (i : Nat) ctx committed base, points[i]? = some (.working ctx committed base) →
    ∀ kind s', Deed home kind s s' →
      s'.engine.states.get ctx.state = s.engine.states.get ctx.state ∨
      ∃ p, s.tasks[i]? = some p ∧
        ((∃ p', Fiber.Moves p s.engine p' s'.engine) ∨ Fiber.Crashes p s.engine s'.engine)
  /-- The committed state at hand is a state of the session. -/
  committed : home.sessionId s.engine = own →
    Owned home own s₀ s.engine.journal (home.sessionState s.engine)
  /-- So is what is stored for it. -/
  stored : ∀ record, home.record? own s.engine = some record →
    Owned home own s₀ s.engine.journal record.state

/-- Whatever happens as long as the walls stand, what the runs of a session and its record hold is
made of the state given at the start, of what was stored for the session before, and of the changes
of its own completed runs. A key that comes from nowhere there is not in any of them. -/
theorem isolated_of_walled (h₀ : Unopened home s₀) (h : Walled home own s₀ used s) :
    (∃ points, Isolated home own s₀ s points) ∧
    ∀ key, (home.sessionState s₀.engine).get? key = none →
      (∀ held st, (home.storeOf s₀.engine).holding own = some held → held.state? = some st →
        st.get? key = none) →
      (∀ base final, s.engine.journal.Completed own base final → base.get? key = none →
        final.get? key = none) →
      ((home.storeOf s₀.engine).isTable = true → ∀ st st' : SessionState,
        st.reread? = some st' → st.get? key = none → st'.get? key = none) →
      ∀ st, Owned home own s₀ s.engine.journal st → st.get? key = none := by
  refine ⟨?_, fun key hgiven hstored hruns hreread st hst =>
    hst.get?_eq_none hgiven hstored hruns hreread⟩
  obtain ⟨points, hstand, hall⟩ := h.guarded h₀
  obtain ⟨side, hwalls, hplaced⟩ := (hall s.engine.journal fun _ ha => ha).sides
  refine ⟨points, hstand, fun runId committed hp => ?_, fun ctx committed base hp hown => ?_,
    hwalls.ended, fun i ctx committed base hi kind s' hd => ?_, fun hown => ?_,
    fun record hrecord => ?_⟩
  · obtain ⟨hlt, hside⟩ := hplaced _ hp
    exact hwalls.states committed hlt (.inl (hside.trans (Side.of_eq_inside.2 rfl)))
  · obtain ⟨-, -, hbegan, hbase⟩ := hplaced _ hp
    exact ⟨hbegan, hbase hown⟩
  · obtain ⟨points', ht, -⟩ := hd.turn hstand
    exact (hall s'.engine.journal ht.journal).copy hstand hd Owned.closed (fun _ ha => ha) hi
  · refine hwalls.states _ hwalls.seated.state ?_
    rw [hwalls.slot]
    split
    · exact .inl (Side.of_eq_inside.2 hown)
    · exact .inr rfl
  · obtain ⟨store, hstore, -⟩ := hwalls.ref
    obtain ⟨now, s', hread⟩ := read_of_record? hstore hrecord
    exact hwalls.keeps.of_read hread

theorem Walled.works (h : Walled home own s₀ used s) (hw : Works home s s') :
    ∃ used', Walled home own s₀ used' s' := by
  induction hw with
  | refl => exact ⟨used, h⟩
  | tail _ hd ih =>
    obtain ⟨used', h'⟩ := ih
    exact ⟨_, h'.deed hd nofun nofun⟩

/-- A workflow that sets a key to what it is told, after a while. -/
private def keeper : Workflow where
  id := "keeper"
  name := "keeper"
  plan := .function fun input _ =>
    match input.message with
    | some word => .sleep 1 (.change (·.insert "secret" word.toJson) (.finish (.text "kept")))
    | none => .finish (.text "nothing")
  store := some ⟨0⟩
  slot := ⟨0⟩

private def closed : Situation where
  engine :=
    { start := ⟨0, 0⟩
      states := ⟨[∅]⟩
      tokens := ⟨[{}]⟩
      slots := ⟨[{ id := "a", state := ⟨0⟩ }]⟩
      stores := ⟨[.memory ∅]⟩ }

/-- A run is under way that will set the key. -/
private def told : Situation :=
  { closed with tasks := [keeper.run (.ofMessage (.text "word")) ⟨0⟩] }.go 0

/-- A run that does nothing. -/
private def asked (s : Situation) : Situation :=
  { s with tasks := s.tasks ++ [keeper.run {} ⟨0⟩] }.go 1

/-- A new session begins, a run there does nothing, and the first run ends. -/
private def renewed : Situation :=
  ((asked { told with engine := (keeper.newSession told.engine).2 }).pass 1).go 0

/-- The first run ends, another session is attached, and a run there does nothing. -/
private def attached : Situation :=
  asked { (told.pass 1).go 0 with engine := keeper.attach "b" ((told.pass 1).go 0).engine }

private theorem unopened_closed : Unopened keeper closed := by
  refine ⟨rfl, rfl, ⟨by decide, by decide, ?_⟩, rfl, ?_, rfl⟩
  · rintro store ⟨⟩
    decide
  · exact fun id held h => nomatch h

private theorem works_told : Works keeper closed told :=
  (ReflTransGen.single (.run ⟨rfl, rfl⟩ (.ofMessage (.text "word")) ⟨0⟩)).trans (works_go _ 0)

private theorem works_asked (s : Situation) : Works keeper s (asked s) :=
  (ReflTransGen.single (.run ⟨rfl, rfl⟩ {} ⟨0⟩)).trans (works_go _ 1)

/-- A new session, begun while a run of the first one is under way, does not get its key. -/
theorem isolated_of_renewed : Unopened keeper closed ∧
    (∃ used, Walled keeper (Ident.ofNat 1) closed used renewed) ∧
    (∃ points, Isolated keeper (Ident.ofNat 1) closed renewed points) ∧
    (keeper.record? "a" renewed.engine).map (·.state.keys) = some ["secret"] ∧
    (keeper.record? (Ident.ofNat 1) renewed.engine).map (·.state.keys) = some [] := by
  have hwalled : ∃ used, Walled keeper (Ident.ofNat 1) closed used renewed := by
    have hstart : Walled keeper (Ident.ofNat 1) closed false closed := .start
    obtain ⟨used, htold⟩ := hstart.works works_told
    exact (htold.fresh (.fresh ⟨rfl, rfl⟩)).works ((works_asked _).trans ((works_pass _ 1).trans (works_go _ 0)))
  obtain ⟨used, h⟩ := hwalled
  exact ⟨unopened_closed, ⟨used, h⟩, (isolated_of_walled unopened_closed h).1,
    by decide +kernel, by decide +kernel⟩

/-- Whether a run of the attached session began with the key. -/
private def begins (a : String × Happening) : Bool :=
  match a.2 with
  | .began base => a.1 ≠ Ident.ofNat 1 || (base.get? "secret").isSome
  | .ended _ run _ => run.sessionId ≠ "b" || a.1 = Ident.ofNat 1
  | _ => true

/-- A session that is attached after a run of another one takes over the key which that run set: its
first run begins with it, and it is stored. -/
theorem leaked_to_attached : Unopened keeper closed ∧
    ReflTransGen (fun s s' => ∃ kind, Deed keeper kind s s') closed attached ∧
    (∃ base run final, (Ident.ofNat 1, .began base) ∈ attached.engine.journal ∧
      (Ident.ofNat 1, .ended none run final) ∈ attached.engine.journal ∧ run.sessionId = "b" ∧
      ¬ Owned keeper "b" closed attached.engine.journal base) ∧
    (keeper.record? "b" attached.engine).map (·.state.keys) = some ["secret"] := by
  have hdeeds {s s' : Situation} (h : Works keeper s s') :
      ReflTransGen (fun s s' => ∃ kind, Deed keeper kind s s') s s' := by
    induction h with
    | refl => exact .refl
    | tail _ hd ih => exact ih.tail ⟨_, hd⟩
  have htold := works_told.trans ((works_pass told 1).trans (works_go _ 0))
  have hbegins : attached.engine.journal.all begins = true := by decide +kernel
  have hkey : ((((told.pass 1).go 0).engine.states.get ⟨0⟩).get? "secret").isSome = true := by
    decide +kernel
  refine ⟨unopened_closed, ((hdeeds htold).tail ⟨_, .attach ⟨rfl, rfl⟩ "b"⟩).trans
    (hdeeds (works_asked _)), ⟨((told.pass 1).go 0).engine.states.get ⟨0⟩, _, _,
      List.mem_of_getElem? (i := 1) rfl, List.mem_of_getElem? (i := 0) rfl, rfl,
      fun howned => ?_⟩, by decide +kernel⟩
  have hnone : (((told.pass 1).go 0).engine.states.get ⟨0⟩).get? "secret" = none := by
    refine howned.get?_eq_none rfl (fun _ _ h => nomatch h) ?_ nofun
    -- The only run there began with the key.
    rintro base final ⟨runId, fault, run, hbegan, hended, hb, -⟩ hbase
    have hfirst := List.all_eq_true.1 hbegins _ hended
    have hsecond := List.all_eq_true.1 hbegins _ hbegan
    simp_all [begins]
  rw [hnone] at hkey
  cases hkey

end WorkflowEngine.Situation
