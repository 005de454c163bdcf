import Mathlib.Logic.Function.Basic
import WorkflowEngine.Proofs.Session.Marks
import WorkflowEngine.Proofs.Store.Keeping

/-!
# Walls around a session

Every state in use is on one side: the committed state of the session, that of another session, the
working copy of a run, or one on which no run has begun. Every step of a run keeps to its side, so
that a property of states which completed runs of the session keep holds of what the session has.
-/

namespace WorkflowEngine

/-- A run of a session completed, with the state it began on and its working copy at its end. -/
def Journal.Completed (j : Journal) (own : String) (base final : SessionState) : Prop :=
  ∃ runId fault run, (runId, .began base) ∈ j ∧ (runId, .ended fault run final) ∈ j ∧
    run.sessionId = own ∧ run.status = .completed

namespace Workflow

open Situation (Kind)

/-- Whose a state is. -/
inductive Side where
  /-- No run has begun on it. -/
  | blank
  /-- The committed state of the session. -/
  | inside
  /-- The committed state of another session. -/
  | outside
  /-- The working copy of a run. -/
  | copy (runId : String)

/-- The side of the committed state of a session. -/
def Side.of (own id : String) : Side := if id = own then .inside else .outside

theorem Side.of_ne_blank (own id : String) : Side.of own id ≠ .blank := by
  unfold Side.of
  split <;> exact nofun

theorem Side.of_ne_copy (own id runId : String) : Side.of own id ≠ .copy runId := by
  unfold Side.of
  split <;> exact nofun

theorem Side.of_eq_inside {own id : String} : Side.of own id = .inside ↔ id = own := by
  unfold Side.of
  split <;> simp [*]

variable {home w : Workflow} {e e' : Engine} {own : String} {P : SessionState → Prop}
  {side side' : Ref SessionState → Side} {actor : Option String} {used : Bool}
  {point point' : Point} {kind : Kind} {place : Ref SessionState}

/-- The states that a run works with are on its sides. -/
def Point.Placed (own : String) (P : SessionState → Prop) (side : Ref SessionState → Side)
    (e : Engine) : Point → Prop
  | starting _ id committed =>
    committed.index < e.states.items.length ∧ side committed = .of own id
  | working ctx committed base =>
    (committed.index < e.states.items.length ∧ side committed = .of own ctx.sessionId) ∧
    (ctx.state.index < e.states.items.length ∧ side ctx.state = .copy ctx.runId) ∧
    (ctx.runId, .began base) ∈ e.journal ∧ (ctx.sessionId = own → P base)
  | ended ctx _ => ctx.state.index < e.states.items.length ∧ side ctx.state = .copy ctx.runId
  | called | entering _ | refused | aborted => True

/-- What a step of an actor leaves: no state changes sides but a blank one, and no working copy
changes but the actor's own. -/
structure Shifts (actor : Option String) (side side' : Ref SessionState → Side) (e e' : Engine) :
    Prop where
  sides : ∀ r, r.index < e.states.items.length → side r ≠ .blank → side' r = side r
  size : e.states.items.length ≤ e'.states.items.length
  journal : ∀ a ∈ e.journal, a ∈ e'.journal
  copies : ∀ r runId, r.index < e.states.items.length → side r = .copy runId →
    actor ≠ some runId → e'.states.get r = e.states.get r

/-- What leaves the states in use as they are but for one place, which may be new, and takes nothing
from the journal. -/
structure Touches (place : Ref SessionState) (e e' : Engine) : Prop where
  others : ∀ r, r ≠ place → r.index < e.states.items.length → e'.states.get r = e.states.get r
  size : e.states.items.length ≤ e'.states.items.length
  within : ∀ r, r ≠ place → r.index < e'.states.items.length → r.index < e.states.items.length
  journal : ∀ a ∈ e.journal, a ∈ e'.journal

theorem Touches.of_size (hothers : ∀ r, r ≠ place → e'.states.get r = e.states.get r)
    (hsize : e'.states.items.length = e.states.items.length)
    (hjournal : ∀ a ∈ e.journal, a ∈ e'.journal) : Touches place e e' :=
  ⟨fun r hr _ => hothers r hr, Nat.le_of_eq hsize.symm, fun _ _ hr => hsize ▸ hr, hjournal⟩

theorem Touches.of_set (hstates : e'.states = e.states ∨ ∃ s, e'.states = e.states.set place s)
    (hjournal : ∀ a ∈ e.journal, a ∈ e'.journal) : Touches place e e' := by
  rcases hstates with hstates | ⟨s, hstates⟩
  · exact .of_size (fun _ _ => by rw [hstates]) (by rw [hstates]) hjournal
  · refine .of_size (fun r hr => ?_) (by rw [hstates, Pool.size_set]) hjournal
    rw [hstates]
    exact Pool.get_set_ne _ hr s

theorem Touches.of_append {s : SessionState} (hstates : e'.states = ⟨e.states.items ++ [s]⟩)
    (hjournal : ∀ a ∈ e.journal, a ∈ e'.journal) : Touches ⟨e.states.items.length⟩ e e' where
  others r _ hr := by
    rw [hstates]
    exact Pool.get_append_left hr s
  size := by simp [hstates]
  within r hne hr := by
    rw [hstates, List.length_append, List.length_singleton] at hr
    refine Nat.lt_of_le_of_ne (Nat.le_of_lt_succ hr) fun heq => hne ?_
    cases r
    exact congrArg Ref.mk heq
  journal := hjournal

/-- The place that is touched comes to a side only if it was blank or is new. -/
theorem Touches.shifts (h : Touches place e e') (hothers : ∀ r, r ≠ place → side' r = side r)
    (hplace : place.index < e.states.items.length → side place ≠ .blank → side' place = side place)
    (hactor : ∀ runId, place.index < e.states.items.length → side place = .copy runId →
      actor = some runId) : Shifts actor side side' e e' where
  sides r hr hside := by
    by_cases hrp : r = place
    · subst hrp
      exact hplace hr hside
    · exact hothers r hrp
  size := h.size
  journal := h.journal
  copies r runId hr hcopy hne := by
    refine h.others r (fun hrp => ?_) hr
    subst hrp
    exact hne (hactor runId hr hcopy)

/-- A new state comes to any side. -/
theorem Touches.shifts_new (h : Touches ⟨e.states.items.length⟩ e e') (new : Side) :
    Shifts actor side (Function.update side ⟨e.states.items.length⟩ new) e e' :=
  h.shifts (fun _ hr => Function.update_of_ne hr ..) (fun hlt => absurd hlt (Nat.lt_irrefl _))
    fun _ hlt => absurd hlt (Nat.lt_irrefl _)

/-- Where nothing is touched, all stay on their sides. -/
theorem Shifts.of_states (hstates : e'.states = e.states) (hjournal : e'.journal = e.journal) :
    Shifts actor side side e e' :=
  ⟨fun _ _ _ => rfl, Nat.le_of_eq (by rw [hstates]), fun _ ha => hjournal ▸ ha,
    fun _ _ _ _ _ => by rw [hstates]⟩

theorem Point.Placed.mono (h : point.Placed own P side e) (hs : Shifts actor side side' e e') :
    point.Placed own P side' e' := by
  have hcommitted {id : String} {r : Ref SessionState}
      (hr : r.index < e.states.items.length ∧ side r = .of own id) :
      r.index < e'.states.items.length ∧ side' r = .of own id :=
    ⟨Nat.lt_of_lt_of_le hr.1 hs.size,
      (hs.sides r hr.1 (hr.2 ▸ Side.of_ne_blank own id)).trans hr.2⟩
  have hcopy {runId : String} {r : Ref SessionState}
      (hr : r.index < e.states.items.length ∧ side r = .copy runId) :
      r.index < e'.states.items.length ∧ side' r = .copy runId :=
    ⟨Nat.lt_of_lt_of_le hr.1 hs.size, (hs.sides r hr.1 (by rw [hr.2]; exact nofun)).trans hr.2⟩
  cases point with
  | starting runId id committed => exact hcommitted h
  | working ctx committed base =>
    exact ⟨hcommitted h.1, hcopy h.2.1, hs.journal _ h.2.2.1, h.2.2.2⟩
  | ended ctx run => exact hcopy h
  | called | entering | refused | aborted => trivial

/-- What the session has has a property: its committed state, what is stored for it, and the states
its runs began on. -/
structure Walls (home : Workflow) (own : String) (P : SessionState → Prop) (used : Bool)
    (side : Ref SessionState → Side) (e : Engine) : Prop where
  seated : home.Seated e
  store : home.store.isSome = true
  keeps : (home.storeOf e).Keeps P own
  slot : side (home.session e).state =
    if used || (home.session e).loaded then .of own (home.sessionId e) else .blank
  states : ∀ r, r.index < e.states.items.length → side r = .inside ∨ side r = .blank →
    P (e.states.get r)
  ended : ∀ runId fault run final, (runId, .ended fault run final) ∈ e.journal →
    run.sessionId = own → ∃ base, (runId, .began base) ∈ e.journal ∧ P base

/-- A property that the states of a session keep, as far as they are made of its own. -/
structure Closed (own : String) (j : Journal) (P : SessionState → Prop) : Prop where
  empty : P ∅
  override : ∀ st st', P st → P st' → P (st.insertMany st'.entries)
  merge : ∀ st base final, P st → P base → j.Completed own base final →
    P (SessionState.merge st base final)

/-- A state with the property keeps it when a record that has it is taken over. -/
theorem Closed.overridden {j : Journal} {st : SessionState} {found : Option SessionRecord}
    (hP : Closed own j P) (hst : P st) (hfound : ∀ record, found = some record → P record.state) :
    P (st.overridden found) := by
  cases found with
  | none => exact hst
  | some record => exact hP.override _ _ hst (hfound record rfl)

theorem Walls.ref (h : home.Walls own P used side e) : ∃ store, home.store = some store ∧
    store.index < e.stores.items.length := by
  obtain ⟨store, hstore⟩ := Option.isSome_iff_exists.1 h.store
  exact ⟨store, hstore, h.seated.store store hstore⟩

/-- The state of the session is where it was, under the same identifier. -/
theorem Walls.slot_of_session (h : home.Walls own P used side e)
    (hsession : home.session e' = home.session e)
    (hside : side' (home.session e).state = side (home.session e).state) :
    side' (home.session e').state =
      if used || (home.session e).loaded || (home.session e').loaded then .of own (home.sessionId e')
      else .blank := by
  rw [sessionId, hsession, Bool.or_assoc, Bool.or_self, hside]
  exact h.slot

theorem Walls.ended_of_mem (h : home.Walls own P used side e)
    (hjournal : ∀ a ∈ e.journal, a ∈ e'.journal) {runId : String} {fault : Option Fault}
    {run : WorkflowRun} {final : SessionState} (hmem : (runId, .ended fault run final) ∈ e.journal)
    (hown : run.sessionId = own) : ∃ base, (runId, .began base) ∈ e'.journal ∧ P base := by
  obtain ⟨base, hbegan, hbase⟩ := h.ended runId fault run final hmem hown
  exact ⟨base, hjournal _ hbegan, hbase⟩

/-- The states of the session keep its property if the one that is touched has it. -/
theorem Touches.states (ht : Touches place e e') (h : home.Walls own P used side e)
    (hothers : ∀ r, r ≠ place → side' r = side r)
    (hplace : side' place = .inside ∨ side' place = .blank → P (e'.states.get place))
    (r : Ref SessionState) (hr : r.index < e'.states.items.length)
    (hside : side' r = .inside ∨ side' r = .blank) : P (e'.states.get r) := by
  by_cases hrp : r = place
  · subst hrp
    exact hplace hside
  · have hr' : r.index < e.states.items.length := ht.within r hrp hr
    rw [hothers r hrp] at hside
    rw [ht.others r hrp hr']
    exact h.states r hr' hside

theorem Touches.states_new (ht : Touches ⟨e.states.items.length⟩ e e')
    (h : home.Walls own P used side e) {new : Side}
    (hnew : new = .inside ∨ new = .blank → P (e'.states.get ⟨e.states.items.length⟩)) :
    ∀ r, r.index < e'.states.items.length →
      Function.update side ⟨e.states.items.length⟩ new r = .inside ∨
        Function.update side ⟨e.states.items.length⟩ new r = .blank → P (e'.states.get r) :=
  ht.states h (fun _ hr => Function.update_of_ne hr ..) fun hside => hnew (by simpa using hside)

/-- The preparation of a session puts its committed state on the session's side. -/
theorem Walls.prepareSession {j : Journal} (h : home.Walls own P used side e)
    (hP : Closed own j P) {r : Except Fault (String × Ref SessionState)}
    (hp : home.prepareSession e = (r, e')) :
    ∃ side', Shifts none side side' e e' ∧
      home.Walls own P (used || (home.session e).loaded) side' e' ∧
      ∀ id committed, r = .ok (id, committed) →
        committed.index < e'.states.items.length ∧ side' committed = .of own id := by
  obtain ⟨store, hstore, hlt⟩ := h.ref
  have hkeeps := h.keeps
  rw [storeOf_eq hstore] at hkeeps
  have hseated := (grows_prepareSession hp).seated h.seated
  rcases prepareSession_reads hstore hp with ⟨hloaded, rfl, rfl⟩ |
    ⟨hloaded, q, s, now, readings, hread, hq⟩
  · have hslot := h.slot
    refine ⟨side, .of_states rfl rfl, ⟨h.seated, h.store, h.keeps, ?_, h.states, h.ended⟩, ?_⟩
    · rw [hslot, hloaded]
      simp
    · rintro _ _ ⟨⟩
      rw [hslot, hloaded]
      exact ⟨h.seated.state, by simp [sessionId]⟩
  · rcases hq with ⟨fault, rfl, rfl, rfl⟩ | ⟨found, rfl, rfl, he⟩
    · refine ⟨side, .of_states rfl rfl, ⟨hseated, h.store, ?_, ?_, h.states, h.ended⟩,
        by rintro _ _ ⟨⟩⟩
      · rw [storeOf_set hstore hlt rfl]
        exact hkeeps.read hread
      · rw [hloaded, Bool.or_false]
        exact h.slot
    · let place := (home.session e).state
      have hsession : home.session e' = { home.session e with loaded := true } := by
        rw [he]
        exact session_modifySession (by exact h.seated.slot) _
      have hid : home.sessionId e' = home.sessionId e := by
        rw [sessionId, hsession]
        rfl
      -- Before, it was on this side already, or blank.
      have hplace : side place = .of own (home.sessionId e) ∨ side place = .blank := by
        rw [h.slot]
        split
        · exact .inl rfl
        · exact .inr rfl
      have htouches : Touches place e e' := by
        refine .of_set ?_ fun a ha => he ▸ ha
        rw [he]
        cases found with
        | none => exact .inl rfl
        | some record => exact .inr ⟨_, rfl⟩
      have hget : e'.states.get place = (e.states.get place).overridden found := by
        rw [he]
        cases found with
        | none => rfl
        | some record => exact Pool.get_set_self h.seated.state _
      have hkept (hown : home.sessionId e = own) : P (e'.states.get place) := by
        rw [hget]
        refine hP.overridden (h.states place h.seated.state ?_) ?_
        · rwa [Side.of_eq_inside.2 hown] at hplace
        · rintro record rfl
          obtain rfl : (home.session e).id = own := hown
          exact hkeeps.of_read hread
      have hothers (r : Ref SessionState) (hr : r ≠ place) :
          Function.update side place (.of own (home.sessionId e)) r = side r :=
        Function.update_of_ne hr ..
      refine ⟨Function.update side place (.of own (home.sessionId e)),
        htouches.shifts hothers (fun _ hside => ?_) (fun runId _ hside => ?_),
        ⟨hseated, h.store, ?_, ?_, htouches.states h hothers fun hside => ?_, ?_⟩, ?_⟩
      · rw [Function.update_self, hplace.resolve_right hside]
      · rw [hside] at hplace
        rcases hplace with hp | hp
        · exact absurd hp.symm (Side.of_ne_copy _ _ _)
        · cases hp
      · rw [storeOf_set (s := s) hstore hlt (he ▸ rfl)]
        exact hkeeps.read hread
      · rw [hsession, hid, Bool.or_true, if_pos rfl, Function.update_self]
      · rw [Function.update_self] at hside
        exact hkept (Side.of_eq_inside.1 (hside.resolve_right (Side.of_ne_blank _ _)))
      · rw [he]
        exact h.ended
      · rintro _ _ ⟨⟩
        exact ⟨Nat.lt_of_lt_of_le h.seated.state htouches.size, Function.update_self ..⟩

/-- What happens aside of the states in use. New ones are no concern of the session. -/
theorem Walls.aside (h : home.Walls own P used side e) (hseated : home.Seated e')
    (hkeeps : (home.storeOf e').Keeps P own) (hsession : home.session e' = home.session e)
    (hstates : ∀ r, r.index < e.states.items.length → e'.states.get r = e.states.get r)
    (hsize : e.states.items.length ≤ e'.states.items.length) (hjournal : e'.journal = e.journal) :
    ∃ side', Shifts none side side' e e' ∧
      home.Walls own P (used || (home.session e).loaded) side' e' := by
  refine ⟨fun r => if r.index < e.states.items.length then side r else .outside,
    ⟨fun r hr _ => if_pos hr, hsize, fun _ ha => hjournal ▸ ha, fun r _ hr _ _ => hstates r hr⟩,
    ⟨hseated, h.store, hkeeps, ?_, fun r _ hside => ?_, ?_⟩⟩
  · rw [sessionId, hsession, Bool.or_assoc, Bool.or_self, if_pos h.seated.state]
    exact h.slot
  · by_cases hr : r.index < e.states.items.length
    · rw [if_pos hr] at hside
      rw [hstates r hr]
      exact h.states r hr hside
    · rw [if_neg hr] at hside
      simp at hside
  · rw [hjournal]
    exact h.ended

/-- The announcement of a run writes it with the committed state of its session. -/
theorem Walls.announceRun {j : Journal} (h : home.Walls own P used side e) (hw : home.Shares w)
    (hP : Closed own j P) {r : Except Fault String} (ha : w.announceRun e = (r, e')) :
    ∃ side', Shifts none side side' e e' ∧
      home.Walls own P (used || (home.session e).loaded) side' e' := by
  obtain ⟨store, hstore, hlt⟩ := h.ref
  rcases announceRun_writes (hw.2.trans hstore) hlt ha with ⟨fault, rfl, rfl⟩ | ⟨fault, rfl, hp⟩ |
    ⟨sessionId, committed, e₁, q, s, readings, hp, hwritten, rfl, rfl⟩
  · exact h.aside h.seated h.keeps rfl (fun _ _ => rfl) (Nat.le_refl _) rfl
  · rw [hw.prepareSession] at hp
    obtain ⟨side', hshifts, hwalls, -⟩ := h.prepareSession hP hp
    exact ⟨side', hshifts, hwalls⟩
  · rw [hw.prepareSession] at hp
    obtain ⟨side', hshifts, hwalls, hplace⟩ := h.prepareSession hP hp
    obtain ⟨hcommitted, hside⟩ := hplace _ _ rfl
    have hlt₁ := hwalls.seated.store store hstore
    have hkeeps := hwalls.keeps
    rw [storeOf_eq hstore] at hkeeps
    refine ⟨side', ⟨hshifts.sides, hshifts.size, hshifts.journal, hshifts.copies⟩,
      ⟨(hw.grows_announceRun ha).seated h.seated, h.store, ?_, hwalls.slot, hwalls.states,
        hwalls.ended⟩⟩
    rw [storeOf_set hstore hlt₁ rfl]
    refine hkeeps.written hwritten fun hown => ?_
    exact hwalls.states committed hcommitted (.inl (hside.trans (Side.of_eq_inside.2 hown)))

/-- A run that begins gets a copy of the committed state of its session. -/
theorem Walls.beginRun {input : ExecutionInput} {runId : String} {token : Ref CancelToken}
    {feed : Option (Ref Feed)} {sessionId : String} {committed : Ref SessionState}
    {ctx : RunContext} {run : WorkflowRun} {base : SessionState}
    (h : home.Walls own P used side e) (hw : home.Shares w)
    (hcommitted : committed.index < e.states.items.length ∧ side committed = .of own sessionId)
    (hseated : home.Seated e')
    (hb : w.beginRun input runId token feed sessionId committed e = ((ctx, run, base), e')) :
    ∃ side', Shifts (some runId) side side' e e' ∧
      home.Walls own P (used || (home.session e).loaded) side' e' ∧
      Point.Placed own P side' e' (.working ctx committed base) := by
  obtain ⟨store, hstore, hlt⟩ := h.ref
  have hkeeps := h.keeps
  rw [storeOf_eq hstore] at hkeeps
  obtain ⟨q, s, now, readings, hwritten, hframe⟩ :=
    beginRun_writes (hw.2.trans hstore) hlt input runId token feed sessionId committed
  rw [hframe] at hb hwritten
  have htouches : Touches ⟨e.states.items.length⟩ e e' :=
    .of_append (congrArg (·.2.states) hb).symm fun a ha =>
      (congrArg (·.2.journal) hb) ▸ List.mem_cons_of_mem _ ha
  cases hb
  have hstays {r : Ref SessionState} (hr : r.index < e.states.items.length) :
      Function.update side ⟨e.states.items.length⟩ (.copy runId) r = side r :=
    Function.update_of_ne (fun heq => Nat.ne_of_lt hr (congrArg Ref.index heq)) ..
  have hbase : sessionId = own → P (e.states.get committed) := fun hown =>
    h.states committed hcommitted.1 (.inl (hcommitted.2.trans (Side.of_eq_inside.2 hown)))
  refine ⟨Function.update side ⟨e.states.items.length⟩ (.copy runId), htouches.shifts_new _, ?_, ?_⟩
  · refine ⟨hseated, h.store, ?_, ?_, htouches.states_new h (by simp),
      fun id fault run final hmem hown => ?_⟩
    · rw [storeOf_set hstore hlt rfl]
      refine hkeeps.written hwritten fun hown => ?_
      exact (congrArg P (Pool.get_append_left hcommitted.1 _)).mpr (hbase hown)
    · exact h.slot_of_session rfl (hstays h.seated.state)
    · exact h.ended_of_mem htouches.journal (by simpa using hmem) hown
  · refine ⟨⟨?_, ?_⟩, ⟨?_, ?_⟩, ?_, hbase⟩
    · exact Nat.lt_of_lt_of_le hcommitted.1 (by simp)
    · exact (hstays hcommitted.1).trans hcommitted.2
    · simp
    · exact Function.update_self ..
    · exact List.mem_cons_self ..

/-- The acts of a run change its copy alone. -/
theorem Walls.acts {ctx : RunContext} {t : List Happening} (h : home.Walls own P used side e)
    (hcopy : side ctx.state = .copy ctx.runId) (ha : ctx.Acts e t e') :
    Shifts (some ctx.runId) side side e e' ∧
      home.Walls own P (used || (home.session e).loaded) side e' := by
  have htouches : Touches ctx.state e e' := by
    refine .of_size (fun r hr => ?_) ha.size fun a hmem => ?_
    · rw [Pool.get, Pool.get, ha.states r hr]
    · rw [ha.journal]
      exact List.mem_append_right _ hmem
  refine ⟨htouches.shifts (fun _ _ => rfl) (fun _ _ => rfl) fun runId _ hside => ?_,
    ⟨(grows_acts ha).seated h.seated, h.store, ?_, ?_,
      htouches.states h (fun _ _ => rfl) fun hside => ?_, fun id fault run final hmem hown => ?_⟩⟩
  · rw [hcopy] at hside
    cases hside
    rfl
  · rw [storeOf, ha.stores]
    exact h.keeps
  · exact h.slot_of_session (by rw [session, session, ha.slots]) rfl
  · simp [hcopy] at hside
  · rw [ha.journal, List.mem_append, List.mem_reverse, List.mem_map] at hmem
    rcases hmem with ⟨a, hat, heq⟩ | hmem
    · cases heq
      exact absurd (ha.inner _ hat) (by simp [Happening.isInner])
    · exact h.ended_of_mem htouches.journal hmem hown

/-- The end of a run merges its changes into the committed state of its session. -/
theorem Walls.endRun {j : Journal} {ctx : RunContext} {run : WorkflowRun} {fault : Option Fault}
    {committed : Ref SessionState} {base : SessionState} (h : home.Walls own P used side e)
    (hw : home.Shares w) (hP : Closed own j P) (hrun : run.Of ctx)
    (hplaced : Point.Placed own P side e (.working ctx committed base))
    (hj : ∀ a ∈ (w.endRun run fault ctx.state committed base e).journal, a ∈ j)
    (hseated : home.Seated (w.endRun run fault ctx.state committed base e)) :
    Shifts (some ctx.runId) side side e (w.endRun run fault ctx.state committed base e) ∧
      home.Walls own P (used || (home.session e).loaded) side
        (w.endRun run fault ctx.state committed base e) := by
  obtain ⟨store, hstore, hlt⟩ := h.ref
  have hkeeps := h.keeps
  rw [storeOf_eq hstore] at hkeeps
  obtain ⟨⟨hcommitted, hside⟩, ⟨-, hcopy⟩, hbegan, hbase⟩ := hplaced
  obtain ⟨q, s, readings, hwritten, hframe⟩ :=
    endRun_writes (hw.2.trans hstore) hlt run fault ctx.state committed base
  set e' := w.endRun run fault ctx.state committed base e with he'
  have hjournal : e'.journal = (run.runId, .ended fault run (e.states.get ctx.state)) :: e.journal :=
    congrArg Engine.journal hframe
  have htouches : Touches committed e e' := by
    refine .of_set ?_ fun a ha => hjournal ▸ List.mem_cons_of_mem _ ha
    rw [hframe]
    dsimp only
    split
    · exact .inr ⟨_, rfl⟩
    · exact .inl rfl
  have hmerged : ctx.sessionId = own → P (e'.states.get committed) := by
    intro hown
    have hbefore : P (e.states.get committed) :=
      h.states committed hcommitted (.inl (hside.trans (Side.of_eq_inside.2 hown)))
    rw [hframe]
    dsimp only
    split
    · rename_i hcompleted
      rw [Pool.get_set_self hcommitted]
      refine hP.merge _ _ _ hbefore (hbase hown) ⟨run.runId, fault, run, hj _ ?_, hj _ ?_,
        hrun.sessionId.trans hown, hcompleted⟩
      · rw [hjournal, hrun.runId]
        exact List.mem_cons_of_mem _ hbegan
      · rw [hjournal]
        exact List.mem_cons_self ..
    · exact hbefore
  refine ⟨htouches.shifts (fun _ _ => rfl) (fun _ _ => rfl) fun runId _ hcopied => ?_,
    ⟨hseated, h.store, ?_, h.slot_of_session (by rw [hframe]; rfl) rfl,
      htouches.states h (fun _ _ => rfl) fun hs => ?_, fun id fault' run' final hmem hown => ?_⟩⟩
  · exact absurd (hside.symm.trans hcopied) (Side.of_ne_copy _ _ _)
  · rw [storeOf_set hstore hlt (congrArg Engine.stores hframe)]
    exact hkeeps.written hwritten fun hown => hmerged (hrun.sessionId.symm.trans hown)
  · rw [hside] at hs
    exact hmerged (Side.of_eq_inside.1 (hs.resolve_right (Side.of_ne_blank _ _)))
  · rw [hjournal] at hmem
    rcases List.mem_cons.1 hmem with heq | hmem
    · cases heq
      refine ⟨base, htouches.journal _ (hrun.runId ▸ hbegan), hbase ?_⟩
      exact hrun.sessionId.symm.trans hown
    · exact h.ended_of_mem htouches.journal hmem hown

/-- A new session begins on an empty state. -/
theorem Walls.newSession {j : Journal} (h : home.Walls own P used side e) (hP : Closed own j P)
    (hseated : home.Seated (home.newSession e).2) :
    ∃ side', Shifts none side side' e (home.newSession e).2 ∧
      home.Walls own P false side' (home.newSession e).2 := by
  have htouches : Touches ⟨e.states.items.length⟩ e (home.newSession e).2 :=
    .of_append rfl fun _ ha => ha
  have hsession : home.session (home.newSession e).2 =
      { id := Ident.ofNat e.generated, state := ⟨e.states.items.length⟩, loaded := false } :=
    Pool.get_modify_self h.seated.slot _
  refine ⟨Function.update side ⟨e.states.items.length⟩ .blank, htouches.shifts_new _,
    ⟨hseated, h.store, h.keeps, ?_, htouches.states_new h fun _ => ?_, h.ended⟩⟩
  · rw [hsession]
    exact Function.update_self ..
  · exact (congrArg P (Pool.get_append_last e.states ∅)).mpr hP.empty

/-- Another session may take over a state on which no run has begun, and a state on the side of the
session stays there under the same identifier. -/
theorem Walls.attach (h : home.Walls own P used side e) (sessionId : String)
    (hid : (used || (home.session e).loaded) = true →
      (sessionId = own ↔ home.sessionId e = own)) :
    Shifts none side side e (home.attach sessionId e) ∧
      home.Walls own P (used || (home.session e).loaded) side (home.attach sessionId e) := by
  have hsession : home.session (home.attach sessionId e) =
      { home.session e with id := sessionId, loaded := false } :=
    session_modifySession h.seated.slot _
  refine ⟨.of_states rfl rfl, ⟨(Call.attach sessionId).grows.seated h.seated, h.store, h.keeps, ?_, h.states, h.ended⟩⟩
  rw [Workflow.sessionId, hsession, Bool.or_false]
  refine h.slot.trans ?_
  split
  · rename_i hused
    simp only [Side.of, hid hused]
  · rfl

theorem Shifts.by (h : Shifts none side side' e e') : Shifts actor side side' e e' :=
  ⟨h.sides, h.size, h.journal, fun r runId hr hcopy _ => h.copies r runId hr hcopy nofun⟩

/-- A step of a run keeps to its side. -/
theorem Walls.passes {j : Journal} (h : home.Walls own P used side e)
    (hplaced : point.Placed own P side e) (hp : home.Passes point e point' e')
    (hP : Closed own j P) (hj : ∀ a ∈ e'.journal, a ∈ j) :
    ∃ side', Shifts point.runId? side side' e e' ∧
      home.Walls own P (used || (home.session e).loaded) side' e' ∧
      point'.Placed own P side' e' := by
  have hseated := hp.grows.seated h.seated
  cases hp with
  | call =>
    obtain ⟨side', hs, hw⟩ :=
      h.aside hseated h.keeps rfl (fun _ _ => rfl) (Nat.le_refl _) rfl
    exact ⟨side', hs.by, hw, trivial⟩
  | refuse hp =>
    obtain ⟨side', hs, hw, -⟩ := h.prepareSession hP hp
    exact ⟨side', hs.by, hw, trivial⟩
  | enter hp =>
    obtain ⟨side', hs, hw, hplace⟩ := h.prepareSession hP hp
    exact ⟨side', hs.by, hw, hplace _ _ rfl⟩
  | begin hw hb => exact h.beginRun hw hplaced hseated hb
  | work ha =>
    obtain ⟨hs, hw⟩ := h.acts hplaced.2.1.2 ha
    exact ⟨side, hs, hw, hplaced.mono hs⟩
  | leave hw hrun hterminal =>
    obtain ⟨hs, hw⟩ := h.endRun hw hP hrun hplaced hj hseated
    have hplaced' := hplaced.mono hs
    exact ⟨side, hs, hw, hplaced'.2.1⟩
  | tell ha =>
    obtain ⟨hs, hw⟩ := h.acts hplaced.2 ha
    exact ⟨side, hs, hw, hplaced.mono hs⟩

/-- What is called from outside keeps to its side, unless another session takes over a state. -/
theorem Walls.call {j : Journal} {started : List Point} (h : home.Walls own P used side e)
    (hc : home.Call kind e started e') (hP : Closed own j P) (hk : kind ≠ .fresh)
    (hattach : ∀ id, kind = .attach id → (used || (home.session e).loaded) = true →
      (id = own ↔ home.sessionId e = own)) :
    ∃ side', Shifts none side side' e e' ∧
      home.Walls own P (used || (home.session e).loaded) side' e' ∧
      ∀ point ∈ started, point.Placed own P side' e' := by
  have hseated := hc.grows.seated h.seated
  cases hc with
  | run =>
    obtain ⟨side', hs, hw⟩ :=
      h.aside h.seated h.keeps rfl (fun _ _ => rfl) (Nat.le_refl _) rfl
    exact ⟨side', hs, hw, by simp [Point.Placed]⟩
  | stream =>
    obtain ⟨side', hs, hw⟩ :=
      h.aside hseated h.keeps rfl (fun _ _ => rfl) (Nat.le_refl _) rfl
    exact ⟨side', hs, hw, by simp [Point.Placed]⟩
  | spawn hw ha =>
    obtain ⟨side', hs, hw⟩ := h.announceRun hw hP ha
    exact ⟨side', hs, hw, by simp [Point.Placed]⟩
  | refuse hw ha =>
    obtain ⟨side', hs, hw⟩ := h.announceRun hw hP ha
    exact ⟨side', hs, hw, by simp⟩
  | other ho =>
    obtain ⟨store, hstore, -⟩ := h.ref
    have hkeeps : (home.storeOf e').Keeps P own := by
      rw [storeOf_eq hstore, ho.get_store hstore, ← storeOf_eq hstore]
      exact h.keeps
    obtain ⟨side', hs, hw⟩ := h.aside hseated hkeeps (session_apart ho.toApart)
      (fun r hr => by rw [Pool.get, Pool.get, ho.states r hr]) ho.size ho.journal
    exact ⟨side', hs, hw, by simp⟩
  | @rename _ store hstore sessionId name =>
    have hkeeps : (home.storeOf (e.renameSession store sessionId name).2).Keeps P own := by
      rw [storeOf_set hstore (h.seated.store _ hstore) rfl]
      exact (storeOf_eq hstore e ▸ h.keeps).rename ..
    obtain ⟨side', hs, hw⟩ :=
      h.aside hseated hkeeps rfl (fun _ _ => rfl) (Nat.le_refl _) rfl
    exact ⟨side', hs, hw, by simp⟩
  | fresh => exact absurd rfl hk
  | attach sessionId =>
    obtain ⟨hs, hw⟩ := h.attach sessionId (hattach sessionId rfl)
    exact ⟨side, hs, hw, by simp⟩

end Workflow

end WorkflowEngine
