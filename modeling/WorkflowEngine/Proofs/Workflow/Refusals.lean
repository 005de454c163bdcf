import WorkflowEngine.Proofs.Store.Writing
import WorkflowEngine.Workflow.Background

/-!
# Refused runs

What a call that starts no run leaves behind. Main statement: at most the entries that are stored for the
session were taken over; otherwise all is as it was, and every store keeps what it kept.
-/

namespace WorkflowEngine

/-- Stores that keep the same for every session. -/
def Engine.KeepsStored (e e' : Engine) : Prop :=
  ∀ store id, (e'.stores.get store).holding id = (e.stores.get store).holding id

namespace Engine.KeepsStored

variable {e e' e'' : Engine}

theorem refl (e : Engine) : e.KeepsStored e := fun _ _ => rfl

theorem trans (h : e.KeepsStored e') (h' : e'.KeepsStored e'') : e.KeepsStored e'' :=
  fun store id => (h' store id).trans (h store id)

/-- A store in the place of another one that keeps the same. -/
theorem set {store : Ref Store} {s : Store}
    (hs : ∀ id, s.holding id = (e.stores.get store).holding id)
    (he : e'.stores = e.stores.set store s) : e.KeepsStored e' := by
  intro store' id
  rw [he]
  by_cases h : store' = store
  · subst h
    rcases Pool.get_set_cases e.stores store' store' s with hget | hget
    · rw [hget, hs]
    · rw [hget]
  · rw [Pool.get_set_ne _ h]

end Engine.KeepsStored

namespace Workflow

/-- Why a run cannot start: its workflow is not valid, or what is stored for a session that is still to be
loaded cannot be read. -/
def refusal? (w : Workflow) (e : Engine) : Option Fault :=
  match w.validate with
  | .error fault => some fault
  | .ok () =>
    if (w.session e).loaded then none
    else match (w.storedSession (w.sessionId e) e).1 with
      | .error fault => some fault
      | .ok _ => none

/-- A call that starts no run. It may read the store, take over the entries that are stored for the session
and give an identifier. -/
structure Unstarted (w : Workflow) (e e' : Engine) : Prop where
  frame : ∃ stores readings generated slots states,
    e' = { e with stores, readings, generated, slots, states }
  stored : e.KeepsStored e'
  session : w.session e' = w.session e ∨ w.session e' = { w.session e with loaded := true }
  committed : w.sessionState e' = w.sessionState e ∨
    ∃ record, (w.storedSession (w.sessionId e) e).1 = .ok (some record) ∧
      w.sessionState e' = (w.sessionState e).insertMany record.state.entries
  slots : ∀ slot, slot ≠ w.slot → e'.slots.get? slot = e.slots.get? slot
  states : ∀ state, state ≠ (w.session e).state → e'.states.get? state = e.states.get? state

variable {w : Workflow} {e e' : Engine}

namespace Unstarted

/-- The session stays the same. -/
theorem sessionId (h : w.Unstarted e e') : w.sessionId e' = w.sessionId e := by
  rcases h.session with hs | hs
  · rw [Workflow.sessionId, hs, Workflow.sessionId]
  · rw [Workflow.sessionId, hs, Workflow.sessionId]

theorem refl (w : Workflow) (e : Engine) : w.Unstarted e e :=
  ⟨⟨_, _, _, _, _, rfl⟩, .refl e, .inl rfl, .inl rfl, fun _ _ => rfl, fun _ _ => rfl⟩

/-- The store is read and an identifier is given afterwards. -/
theorem read (h : w.Unstarted e e') {stores : Pool Store} {readings generated : Nat}
    (hs : e'.KeepsStored { e' with stores, readings, generated }) :
    w.Unstarted e { e' with stores, readings, generated } := by
  obtain ⟨⟨_, _, _, slots, states, rfl⟩, hstored, hsession, hcommitted, hslots, hstates⟩ := h
  exact ⟨⟨_, _, _, slots, states, rfl⟩, hstored.trans hs, hsession, hcommitted, hslots, hstates⟩

end Unstarted

theorem keepsStored_readSession {store : Ref Store} {sessionId : String}
    {r : Except Fault (Option SessionRecord)} (h : e.readSession store sessionId = (r, e')) :
    e.KeepsStored e' := by
  rcases hread : (e.stores.get store).read sessionId e.readClock.1 with ⟨q, s⟩
  rw [Engine.readSession] at h
  dsimp only at h
  rw [show (e.readClock.2.stores.get store).read sessionId e.readClock.1 = (q, s) from hread] at h
  obtain ⟨-, rfl⟩ := Prod.mk.inj h
  exact .set (Store.holding_read hread) rfl

theorem keepsStored_storedSession {sessionId : String} {r : Except Fault (Option SessionRecord)}
    (h : w.storedSession sessionId e = (r, e')) : e.KeepsStored e' := by
  unfold storedSession at h
  split at h
  · exact keepsStored_readSession h
  · obtain ⟨-, rfl⟩ := Prod.mk.inj h
    exact .refl e

theorem keepsStored_upsertSession {store : Ref Store} {record : SessionRecord} {fault : Fault}
    (h : e.upsertSession store record = (.error fault, e')) : e.KeepsStored e' := by
  rcases hput : (e.stores.get store).upsert record with ⟨q, s⟩
  rw [Engine.upsertSession] at h
  dsimp only at h
  rw [hput] at h
  obtain ⟨rfl, rfl⟩ := Prod.mk.inj h
  rcases Store.holding_upsert hput with ⟨_, -, hs⟩ | ⟨hq, -⟩
  · exact .set hs rfl
  · cases hq

/-- A record that cannot be written is not. -/
theorem keepsStored_persist {run : WorkflowRun} {committed : Ref SessionState} {fault : Fault}
    (h : w.persist run committed e = (.error fault, e')) : e.KeepsStored e' := by
  unfold persist at h
  split at h
  · cases h
  · rename_i store _
    rcases hread : e.readSession store run.sessionId with ⟨found, e₁⟩
    have hkept := keepsStored_readSession hread
    rw [hread] at h
    cases found with
    | error fault =>
      obtain ⟨-, rfl⟩ := Prod.mk.inj h
      exact hkept
    | ok found =>
      rcases hput : e₁.readClock.2.readClock.2.upsertSession store (w.recordWith run
        (e₁.states.get committed) found e₁.readClock.1 e₁.readClock.2.readClock.1) with ⟨q, e₂⟩
      obtain ⟨hq, rfl⟩ := Prod.mk.inj
        ((congrArg (fun p => (p.1.map fun _ => (), p.2)) hput).symm.trans h)
      cases q with
      | ok r => cases hq
      | error fault' =>
        have hwritten : e₁.readClock.2.readClock.2.KeepsStored e₂ := keepsStored_upsertSession hput
        exact hkept.trans hwritten

theorem keepsStored_prepareSession {r : Except Fault (String × Ref SessionState)}
    (h : w.prepareSession e = (r, e')) : e.KeepsStored e' := by
  rcases prepareSession_split w e h with ⟨-, -, rfl⟩ |
    ⟨-, ⟨fault, hstored, -⟩ | ⟨found, e₁, hstored, -, rfl⟩⟩
  · exact .refl e'
  · exact keepsStored_storedSession hstored
  · have hkept : e.KeepsStored e₁ := keepsStored_storedSession hstored
    exact hkept

/-- A session that is loaded stays in its place. -/
private theorem session_once_loaded (w : Workflow) (e : Engine) :
    w.session (w.modifySession (fun s => { s with loaded := true }) e) = w.session e ∨
      w.session (w.modifySession (fun s => { s with loaded := true }) e) =
        { w.session e with loaded := true } := by
  rcases Pool.get_modify_cases e.slots w.slot w.slot fun s => { s with loaded := true } with h | ⟨-, -, h⟩
  · exact .inl h
  · exact .inr h

/-- The preparation of a session starts no run. -/
theorem unstarted_prepareSession {r : Except Fault (String × Ref SessionState)}
    (h : w.prepareSession e = (r, e')) : w.Unstarted e e' := by
  have hkept := keepsStored_prepareSession h
  rcases prepareSession_cases w e h with ⟨-, -, rfl⟩ |
    ⟨-, ⟨_, stores, readings, -, -, rfl⟩ | ⟨found, stores, readings, hfound, -, rfl⟩⟩
  · exact .refl w e'
  · exact (Unstarted.refl w e).read hkept
  · have hsession (states : Pool SessionState) := session_once_loaded w { e with stores, readings, states }
    have hslots (slot : Ref SessionSlot) (hne : slot ≠ w.slot) :=
      Pool.get?_modify_ne e.slots hne fun s => { s with loaded := true }
    have hplace (states : Pool SessionState) : (w.session (w.modifySession
        (fun s => { s with loaded := true }) { e with stores, readings, states })).state =
        (w.session e).state := by
      rcases hsession states with hs | hs <;> rw [hs] <;> rfl
    refine ⟨⟨_, _, _, _, _, rfl⟩, hkept, hsession _, ?_, hslots, ?_⟩
    · rw [sessionState, hplace]
      cases found with
      | none => exact .inl rfl
      | some record =>
        rcases Pool.get_set_cases e.states (w.session e).state (w.session e).state
          ((e.states.get (w.session e).state).insertMany record.state.entries) with hset | hset
        · exact .inr ⟨record, hfound, hset⟩
        · exact .inl hset
    · intro state hne
      cases found with
      | none => rfl
      | some record => exact Pool.get?_set_ne _ hne _

/-- A run that cannot be announced is not started. -/
theorem unstarted_announceRun {fault : Fault} (h : w.announceRun e = (.error fault, e')) :
    w.Unstarted e e' := by
  rcases announceRun_split w e h with ⟨fault, -, -, rfl⟩ | ⟨-, ⟨fault, hp, -⟩ |
    ⟨sessionId, committed, e₁, q, hp, hpersist, hr⟩⟩
  · exact .refl w e'
  · exact unstarted_prepareSession hp
  · cases q with
    | ok => cases hr
    | error fault =>
      have hkept : e₁.freshId.2.readClock.2.KeepsStored e' := keepsStored_persist hpersist
      obtain ⟨stores, readings, hframe⟩ := persist_frame w e₁.freshId.2.readClock.2
        (.pending (Ident.ofNat e₁.generated) sessionId w.id w.name e₁.readClock.1) committed
      rw [hpersist] at hframe
      obtain rfl : e' = { e₁ with stores, readings, generated := e₁.generated + 1 } := hframe
      exact (unstarted_prepareSession hp).read hkept

/-- A session is prepared unless the run is refused. -/
theorem refusal?_of_prepareSession (hv : w.validate = .ok ())
    {r : Except Fault (String × Ref SessionState)} (h : w.prepareSession e = (r, e')) :
    w.refusal? e = match r with
      | .error fault => some fault
      | .ok _ => none := by
  unfold refusal?
  rw [hv]
  dsimp only
  rcases prepareSession_cases w e h with ⟨hloaded, rfl, -⟩ |
    ⟨hloaded, ⟨fault, _, _, hstored, rfl, -⟩ | ⟨found, _, _, hstored, rfl, -⟩⟩
  · rw [if_pos hloaded]
  · rw [hloaded, sessionId, hstored]
    rfl
  · rw [hloaded, sessionId, hstored]
    rfl

theorem loaded_prepareSession (hslot : w.slot.index < e.slots.items.length)
    {place : String × Ref SessionState} (h : w.prepareSession e = (.ok place, e')) :
    (w.session e').loaded = true := by
  rcases prepareSession_cases w e h with ⟨hloaded, -, rfl⟩ |
    ⟨-, ⟨_, _, _, -, hr, -⟩ | ⟨_, _, _, -, -, rfl⟩⟩
  · exact hloaded
  · cases hr
  · exact congrArg SessionSlot.loaded (Pool.get_modify_self hslot fun s => { s with loaded := true })

/-- A run that was announced is not refused while its session is at hand. -/
theorem refusal?_of_announceRun {runId : String} (hslot : w.slot.index < e.slots.items.length)
    (h : w.announceRun e = (.ok runId, e')) {d : Engine} (hd : w.session d = w.session e') :
    w.refusal? d = none := by
  rcases announceRun_cases w e h with ⟨_, hr, -⟩ | ⟨_, hr, -⟩ | ⟨place, e₁, stores, readings, hp, rfl, -⟩
  · cases hr
  · cases hr
  · have hv : w.validate = .ok () := by
      rcases announceRun_split w e h with ⟨_, -, hr, -⟩ | ⟨hv, -⟩
      · cases hr
      · exact hv
    have hprepared := loaded_prepareSession hslot hp
    have hloaded : (w.session d).loaded = true := by
      rw [hd]
      exact hprepared
    unfold refusal?
    rw [hv]
    exact if_pos hloaded

end Workflow

end WorkflowEngine
