import WorkflowEngine.Proofs.Ident
import WorkflowEngine.Proofs.Run.Conduct
import WorkflowEngine.Proofs.Session.Merge
import WorkflowEngine.Proofs.Workflow.Frames
import WorkflowEngine.Workflow.Execution

/-!
# Effects on a session

What each kind of act does to the session that a workflow shares with its clones: to the place of
its committed state, to the committed state itself, and to what the journal says of its runs.
-/

namespace WorkflowEngine

/-- A state with the entries of the stored one before its own. -/
def SessionState.overridden (state : SessionState) : Option SessionRecord → SessionState
  | some record => state.insertMany record.state.entries
  | none => state

namespace Workflow

/-- A workflow works in the session and with the store of another one, as a clone does. -/
def Shares (home w : Workflow) : Prop := w.slot = home.slot ∧ w.store = home.store

/-- What everyone else may do to the engine: anything but touch the session, the states in use and
the journal, or take back an identifier. -/
structure Apart (home : Workflow) (e e' : Engine) : Prop where
  slot : e'.slots.get? home.slot = e.slots.get? home.slot
  states : ∀ r : Ref SessionState, r.index < e.states.items.length →
    e'.states.get? r = e.states.get? r
  size : e.states.items.length ≤ e'.states.items.length
  journal : e'.journal = e.journal
  generated : e.generated ≤ e'.generated

variable {home w : Workflow} {e e' e'' : Engine}

/-- An act leaves the place of the committed state, takes nothing back, and lets no run begin but
perhaps one. -/
structure Respects (home : Workflow) (own : Option String) (e e' : Engine) : Prop where
  place : (home.session e').state = (home.session e).state
  loaded : (home.session e).loaded = true → (home.session e').loaded = true
  slot : home.slot.index < e.slots.items.length → home.slot.index < e'.slots.items.length
  states : e.states.items.length ≤ e'.states.items.length
  generated : e.generated ≤ e'.generated
  base : ∀ runId, own ≠ some runId → e'.journal.base? runId = e.journal.base? runId

/-- An act leaves the committed state as it is, and no run begins or completes. -/
structure Spares (home : Workflow) (e e' : Engine) : Prop where
  loaded : (home.session e').loaded = (home.session e).loaded
  committed : home.sessionState e' = home.sessionState e
  completions : e'.journal.completions = e.journal.completions
  base : ∀ runId, e'.journal.base? runId = e.journal.base? runId
  ended : ∀ runId fault run final, (runId, .ended fault run final) ∈ e'.journal →
    (runId, .ended fault run final) ∈ e.journal

/-- An identifier that was given. -/
def Given (e : Engine) (runId : String) : Prop := ∃ n < e.generated, runId = Ident.ofNat n

theorem Given.mono {runId : String} (h : Given e runId) (hle : e.generated ≤ e'.generated) :
    Given e' runId := by
  obtain ⟨n, hn, rfl⟩ := h
  exact ⟨n, Nat.lt_of_lt_of_le hn hle, rfl⟩

/-- What an act does to the committed state: nothing, or a run begins on it, or it takes over the
stored entries, or it merges what a completed run changed. -/
inductive Effect (home : Workflow) (e e' : Engine) : Prop
  | spared (h : home.Spares e e')
  | begun {runId : String} (hg : Given e runId) (hb : e.journal.base? runId = none)
      (hl : (home.session e').loaded = (home.session e).loaded)
      (hc : home.sessionState e' = home.sessionState e)
      (hj : e'.journal = (runId, .began (home.sessionState e)) :: e.journal)
  | taken {found : Option SessionRecord} (hl : (home.session e).loaded = false)
      (hl' : (home.session e').loaded = true) (hj : e'.journal = e.journal)
      (hf : (home.storedSession (home.sessionId e) e).1 = .ok found)
      (hc : home.sessionState e' = SessionState.overridden (home.sessionState e) found)
  | ended (hl : (home.session e).loaded = true) (hl' : (home.session e').loaded = true)
      {runId : String} {fault : Option Fault} {run : WorkflowRun} {base final : SessionState}
      (hb : e.journal.base? runId = some base)
      (hj : e'.journal = (runId, .ended fault run final) :: e.journal)
      (h : ∀ initial : SessionState, home.sessionState e = initial.mergeAll e.journal.completions →
        home.sessionState e' = initial.mergeAll e'.journal.completions)

theorem Spares.refl (home : Workflow) (e : Engine) : home.Spares e e :=
  ⟨rfl, rfl, rfl, fun _ => rfl, fun _ _ _ _ h => h⟩

namespace Respects

theorem refl (home : Workflow) (own : Option String) (e : Engine) : home.Respects own e e :=
  ⟨rfl, fun h => h, fun h => h, Nat.le_refl _, Nat.le_refl _, fun _ _ => rfl⟩

theorem trans {own : Option String} (h : home.Respects own e e') (h' : home.Respects own e' e'') :
    home.Respects own e e'' where
  place := h'.place.trans h.place
  loaded := fun hl => h'.loaded (h.loaded hl)
  slot := fun hi => h'.slot (h.slot hi)
  states := Nat.le_trans h.states h'.states
  generated := Nat.le_trans h.generated h'.generated
  base := fun runId hne => (h'.base runId hne).trans (h.base runId hne)

end Respects

theorem respects_acts {ctx : RunContext} {t : List Happening} (h : ctx.Acts e t e')
    (own : Option String) : home.Respects own e e' where
  place := by rw [session, session, h.slots]
  loaded := fun hl => by rwa [session, h.slots]
  slot := fun hi => by rwa [h.slots]
  states := Nat.le_of_eq h.size.symm
  generated := Nat.le_of_eq h.generated.symm
  base := fun runId _ => by
    rw [h.journal, ← List.map_reverse]
    exact Journal.base?_append_inner (fun a ha => h.inner a (List.mem_reverse.1 ha)) _ _ _

theorem spares_acts {ctx : RunContext} {t : List Happening} (h : ctx.Acts e t e')
    (hs : ctx.state ≠ (home.session e).state) : home.Spares e e' where
  loaded := by rw [session, session, h.slots]
  committed := by
    have hplace : home.session e' = home.session e := by rw [session, session, h.slots]
    rw [sessionState, sessionState, hplace, Pool.get, Pool.get, h.states _ hs.symm]
  completions := by
    rw [h.journal, ← List.map_reverse]
    exact Journal.completions_append_inner (fun a ha => h.inner a (List.mem_reverse.1 ha)) _ _
  base := fun runId => by
    rw [h.journal, ← List.map_reverse]
    exact Journal.base?_append_inner (fun a ha => h.inner a (List.mem_reverse.1 ha)) _ _ _
  ended := fun runId fault run final he => by
    rw [h.journal] at he
    rcases List.mem_append.1 he with he | he
    · obtain ⟨a, ha, heq⟩ := List.mem_map.1 (List.mem_reverse.1 he)
      cases heq
      have hinner := h.inner _ ha
      cases hinner
    · exact he

theorem respects_freshId (e : Engine) : home.Respects none e e.freshId.2 :=
  ⟨rfl, fun h => h, fun h => h, Nat.le_refl _, Nat.le_succ _, fun _ _ => rfl⟩

/-- Changes of nothing but the store, the clock and the number of identifiers. -/
theorem respects_frame (own : Option String) (stores : Pool Store) (readings : Nat)
    {generated : Nat} (hg : e.generated ≤ generated) :
    home.Respects own e { e with stores, readings, generated } :=
  ⟨rfl, fun h => h, fun h => h, Nat.le_refl _, hg, fun _ _ => rfl⟩

theorem session_apart (h : home.Apart e e') : home.session e' = home.session e := by
  rw [session, session, Pool.get, Pool.get, h.slot]

theorem respects_apart (h : home.Apart e e') (own : Option String) : home.Respects own e e' where
  place := by rw [session_apart h]
  loaded := fun hl => by rwa [session_apart h]
  slot := fun hi => by
    have hget : e'.slots.get? home.slot = e.slots.get? home.slot := h.slot
    simp only [Pool.get?] at hget
    rw [List.getElem?_eq_getElem hi] at hget
    exact (List.getElem?_eq_some_iff.1 hget).1
  states := h.size
  generated := h.generated
  base := fun runId _ => by rw [h.journal]

theorem spares_apart (h : home.Apart e e')
    (hi : (home.session e).state.index < e.states.items.length) : home.Spares e e' where
  loaded := by rw [session_apart h]
  committed := by
    rw [sessionState, sessionState, session_apart h, Pool.get, Pool.get, h.states _ hi]
  completions := by rw [h.journal]
  base := fun runId => by rw [h.journal]
  ended := fun _ _ _ _ he => h.journal ▸ he

theorem Shares.session (hw : home.Shares w) (e : Engine) : w.session e = home.session e := by
  rw [Workflow.session, Workflow.session, hw.1]

theorem Shares.storedSession (hw : home.Shares w) (sessionId : String) (e : Engine) :
    w.storedSession sessionId e = home.storedSession sessionId e := by
  rw [Workflow.storedSession, Workflow.storedSession, hw.2]

/-- The session after it was loaded. -/
private theorem session_loaded (hw : home.Shares w) (hi : home.slot.index < e.slots.items.length)
    (stores : Pool Store) (readings : Nat) (states : Pool SessionState) :
    home.session (w.modifySession (fun s => { s with loaded := true })
      { e with stores, readings, states }) = { home.session e with loaded := true } := by
  rw [Workflow.session, modifySession, hw.1]
  exact Pool.get_modify_self hi _

/-- The preparation of a session respects it. Afterwards a prepared session is loaded, and its state
is in its place. -/
theorem respects_prepareSession (hw : home.Shares w) (hi : home.slot.index < e.slots.items.length)
    {r : Except Fault (String × Ref SessionState)} (h : w.prepareSession e = (r, e'))
    (own : Option String) :
    home.Respects own e e' ∧ ∀ sessionId committed, r = .ok (sessionId, committed) →
      (home.session e').loaded = true ∧ committed = (home.session e').state := by
  rcases prepareSession_cases w e h with ⟨hl, rfl, rfl⟩ |
    ⟨-, ⟨fault, stores, readings, -, rfl, rfl⟩ | ⟨found, stores, readings, -, rfl, rfl⟩⟩
  · refine ⟨.refl home own _, ?_⟩
    rintro sessionId committed ⟨⟩
    rw [hw.session] at hl ⊢
    exact ⟨hl, rfl⟩
  · exact ⟨respects_frame own stores readings (Nat.le_refl _), nofun⟩
  · refine ⟨⟨?_, ?_, ?_, ?_, Nat.le_refl _, fun _ _ => rfl⟩, ?_⟩
    · rw [session_loaded hw hi]
    · rw [session_loaded hw hi]
      exact fun _ => rfl
    · exact fun _ => by simpa [modifySession] using hi
    · cases found <;> simp [modifySession]
    · rintro sessionId committed ⟨⟩
      rw [session_loaded hw hi, hw.session]
      exact ⟨rfl, rfl⟩

theorem spares_frame (stores : Pool Store) (readings generated : Nat) :
    home.Spares e { e with stores, readings, generated } :=
  ⟨rfl, rfl, rfl, fun _ => rfl, fun _ _ _ _ h => h⟩

/-- The preparation of a session takes over the stored entries if nobody did. -/
theorem effect_prepareSession (hw : home.Shares w) (hi : home.slot.index < e.slots.items.length)
    (hs : (home.session e).state.index < e.states.items.length)
    {r : Except Fault (String × Ref SessionState)} (h : w.prepareSession e = (r, e')) :
    home.Effect e e' := by
  rcases prepareSession_cases w e h with ⟨hl, -, rfl⟩ | ⟨hl, ⟨fault, stores, readings, -, -, rfl⟩ |
    ⟨found, stores, readings, hf, -, rfl⟩⟩
  · exact .spared (.refl home _)
  · exact .spared (spares_frame stores readings e.generated)
  · rw [hw.session] at hl hf
    rw [hw.storedSession] at hf
    refine .taken hl (by rw [session_loaded hw hi]) rfl hf ?_
    rw [sessionState, session_loaded hw hi]
    cases found with
    | none => rfl
    | some record =>
      rw [hw.session]
      exact Pool.get_set_self hs _

theorem respects_beginRun {input : ExecutionInput} {runId : String}
    {token : Ref CancelToken} {feed : Option (Ref Feed)} {sessionId : String}
    {committed : Ref SessionState} :
    home.Respects (some runId) e (w.beginRun input runId token feed sessionId committed e).2 := by
  obtain ⟨stores, readings, now, hb⟩ :=
    beginRun_frame w e input runId token feed sessionId committed
  rw [hb]
  refine ⟨rfl, fun h => h, fun h => h, by simp, Nat.le_refl _, fun id hne => ?_⟩
  rw [Journal.base?, if_neg fun heq => hne (congrArg some heq)]

/-- A run begins on the committed state. -/
theorem effect_beginRun {input : ExecutionInput} {runId : String} {token : Ref CancelToken}
    {feed : Option (Ref Feed)} {sessionId : String} (hg : Given e runId)
    (hb : e.journal.base? runId = none)
    (hs : (home.session e).state.index < e.states.items.length) :
    home.Effect e (w.beginRun input runId token feed sessionId (home.session e).state e).2 := by
  obtain ⟨stores, readings, now, hframe⟩ :=
    beginRun_frame w e input runId token feed sessionId (home.session e).state
  rw [hframe]
  refine .begun hg hb rfl ?_ rfl
  change Pool.get ⟨e.states.items ++ [e.states.get (home.session e).state]⟩
    (home.session e).state = _
  simp [sessionState, Pool.get, Pool.get?, List.getElem?_append_left hs]

theorem respects_endRun {run : WorkflowRun} {fault : Option Fault}
    {state committed : Ref SessionState} {base : SessionState} (own : Option String) :
    home.Respects own e (w.endRun run fault state committed base e) := by
  obtain ⟨stores, readings, he⟩ := endRun_frame w e run fault state committed base
  rw [he]
  refine ⟨rfl, fun h => h, fun h => h, ?_, Nat.le_refl _, fun _ _ => rfl⟩
  dsimp only
  split <;> simp

theorem journal_endRun {run : WorkflowRun} {fault : Option Fault}
    {state committed : Ref SessionState} {base : SessionState} : (w.endRun run fault state committed base e).journal =
      (run.runId, .ended fault run (e.states.get state)) :: e.journal := by
  obtain ⟨stores, readings, he⟩ := endRun_frame w e run fault state committed base
  rw [he]

/-- A run that ends is merged when it completed. -/
theorem sessionState_endRun {run : WorkflowRun} {fault : Option Fault} {state : Ref SessionState}
    {base : SessionState} (hs : (home.session e).state.index < e.states.items.length)
    (hbase : e.journal.base? run.runId = some base) (initial : SessionState)
    (h : home.sessionState e = initial.mergeAll e.journal.completions) :
    home.sessionState (w.endRun run fault state (home.session e).state base e) = initial.mergeAll
      (w.endRun run fault state (home.session e).state base e).journal.completions := by
  obtain ⟨stores, readings, he⟩ :=
    endRun_frame w e run fault state (home.session e).state base
  rw [he]
  dsimp only
  rw [Journal.completions, hbase]
  by_cases hc : run.status = .completed
  · simp only [hc, if_true, Option.getD_some, SessionState.mergeAll_concat, ← h]
    exact Pool.get_set_self hs _
  · simp only [hc, if_false, ← h]
    rfl

theorem respects_announceRun (hw : home.Shares w) (hi : home.slot.index < e.slots.items.length)
    (own : Option String) {r : Except Fault String} (h : w.announceRun e = (r, e')) :
    home.Respects own e e' := by
  rcases announceRun_cases w e h with ⟨fault, -, rfl⟩ | ⟨fault, -, hp⟩ |
    ⟨place, e₁, stores, readings, hp, rfl, -⟩
  · exact .refl home own _
  · exact (respects_prepareSession hw hi hp own).1
  · exact (respects_prepareSession hw hi hp own).1.trans
      (respects_frame own stores readings (Nat.le_succ _))

/-- The identifier of an announced run was not given before. -/
theorem given_announceRun (hw : home.Shares w) (hi : home.slot.index < e.slots.items.length)
    {runId : String} (h : w.announceRun e = (.ok runId, e')) :
    ∃ n, e.generated ≤ n ∧ n < e'.generated ∧ runId = Ident.ofNat n := by
  rcases announceRun_cases w e h with ⟨fault, hr, -⟩ | ⟨fault, hr, -⟩ |
    ⟨place, e₁, stores, readings, hp, rfl, hr⟩
  · cases hr
  · cases hr
  · exact ⟨e₁.generated, (respects_prepareSession hw hi hp none).1.generated, Nat.lt_succ_self _,
      hr runId rfl⟩

/-- The announcement of a run does to the committed state what the preparation of its session
does. -/
theorem effect_announceRun (hw : home.Shares w) (hi : home.slot.index < e.slots.items.length)
    (hs : (home.session e).state.index < e.states.items.length) {r : Except Fault String}
    (h : w.announceRun e = (r, e')) : home.Effect e e' := by
  rcases announceRun_cases w e h with ⟨fault, -, rfl⟩ | ⟨fault, -, hp⟩ |
    ⟨place, e₁, stores, readings, hp, rfl, -⟩
  · exact .spared (.refl home _)
  · exact effect_prepareSession hw hi hs hp
  · cases effect_prepareSession hw hi hs hp with
    | spared h => exact .spared ⟨h.loaded, h.committed, h.completions, h.base, h.ended⟩
    | begun hg hb hl hc hj => exact .begun hg hb hl hc hj
    | taken hl hl' hj hf hc => exact .taken hl hl' hj hf hc
    | ended hl hl' hb hj h => exact .ended hl hl' hb hj h

end Workflow

end WorkflowEngine
