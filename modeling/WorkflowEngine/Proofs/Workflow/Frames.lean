import WorkflowEngine.Workflow.Background

/-!
# Frames of session calls

What the beginning and the end of a run leave as it is: writing to the store touches the store and
the clock alone, and only the session at hand and its committed state change otherwise.
-/

namespace WorkflowEngine.Workflow

variable (w : Workflow) (e : Engine)

theorem storedSession_frame (sessionId : String) :
    ∃ stores readings, (w.storedSession sessionId e).2 = { e with stores, readings } := by
  unfold storedSession
  split
  · exact ⟨_, _, rfl⟩
  · exact ⟨_, _, rfl⟩

/-- Writing a run to the store touches the store and the clock alone. -/
theorem persist_frame (run : WorkflowRun) (committed : Ref SessionState) :
    ∃ stores readings, (w.persist run committed e).2 = { e with stores, readings } := by
  unfold persist
  split
  · exact ⟨_, _, rfl⟩
  · rename_i store _
    rcases hr : e.readSession store run.sessionId with ⟨result, e'⟩
    have he : ∃ stores readings, e' = { e with stores, readings } :=
      ⟨_, _, (congrArg Prod.snd hr).symm⟩
    obtain ⟨stores, readings, rfl⟩ := he
    cases result with
    | error fault => exact ⟨_, _, rfl⟩
    | ok found => exact ⟨_, _, rfl⟩

/-- How the preparation of a session comes out: it is loaded already, or cannot be read, or takes over
what is stored for it. -/
theorem prepareSession_split {r : Except Fault (String × Ref SessionState)} {e' : Engine}
    (h : w.prepareSession e = (r, e')) :
    (w.session e).loaded = true ∧ r = .ok ((w.session e).id, (w.session e).state) ∧ e' = e ∨
    (w.session e).loaded = false ∧
      ((∃ fault, w.storedSession (w.session e).id e = (.error fault, e') ∧ r = .error fault) ∨
        ∃ found e₁, w.storedSession (w.session e).id e = (.ok found, e₁) ∧
          r = .ok ((w.session e).id, (w.session e).state) ∧
          e' = w.modifySession (fun s => { s with loaded := true })
            { e₁ with
              states := match found with
                | some record => e₁.states.set (w.session e).state
                    ((e₁.states.get (w.session e).state).insertMany record.state.entries)
                | none => e₁.states }) := by
  unfold prepareSession at h
  dsimp only at h
  cases hloaded : (w.session e).loaded with
  | true =>
    simp only [hloaded, if_true, Prod.mk.injEq] at h
    exact .inl ⟨rfl, h.1.symm, h.2.symm⟩
  | false =>
    rcases hr : w.storedSession (w.session e).id e with ⟨result, e₁⟩
    simp only [hloaded, Bool.false_eq_true, if_false, hr] at h
    cases result with
    | error fault =>
      obtain ⟨rfl, rfl⟩ := Prod.mk.inj h
      exact .inr ⟨rfl, .inl ⟨fault, rfl, rfl⟩⟩
    | ok found =>
      obtain ⟨rfl, rfl⟩ := Prod.mk.inj h
      refine .inr ⟨rfl, .inr ⟨found, e₁, rfl, rfl, ?_⟩⟩
      cases found <;> rfl

/-- Nothing but the store and the clock change, unless the stored entries are taken over. -/
theorem prepareSession_cases {r : Except Fault (String × Ref SessionState)} {e' : Engine}
    (h : w.prepareSession e = (r, e')) :
    (w.session e).loaded = true ∧ r = .ok ((w.session e).id, (w.session e).state) ∧ e' = e ∨
    (w.session e).loaded = false ∧
      ((∃ fault stores readings, (w.storedSession (w.session e).id e).1 = .error fault ∧
          r = .error fault ∧ e' = { e with stores, readings }) ∨
        ∃ found stores readings, (w.storedSession (w.session e).id e).1 = .ok found ∧
          r = .ok ((w.session e).id, (w.session e).state) ∧
          e' = w.modifySession (fun s => { s with loaded := true })
            { e with
              stores
              readings
              states := match found with
                | some record => e.states.set (w.session e).state
                    ((e.states.get (w.session e).state).insertMany record.state.entries)
                | none => e.states }) := by
  obtain ⟨stores, readings, hframe⟩ := storedSession_frame w e (w.session e).id
  rcases prepareSession_split w e h with hloaded |
    ⟨hloaded, ⟨fault, hstored, rfl⟩ | ⟨found, e₁, hstored, rfl, rfl⟩⟩
  · exact .inl hloaded
  · rw [hstored] at hframe ⊢
    exact .inr ⟨hloaded, .inl ⟨fault, stores, readings, rfl, rfl, hframe⟩⟩
  · rw [hstored] at hframe ⊢
    obtain rfl : e₁ = { e with stores, readings } := hframe
    exact .inr ⟨hloaded, .inr ⟨found, stores, readings, rfl, rfl, rfl⟩⟩

/-- A run that begins notes the committed state and gets a copy of it as a state of its own. -/
theorem beginRun_frame (input : ExecutionInput) (runId : String) (token : Ref CancelToken)
    (feed : Option (Ref Feed)) (sessionId : String) (committed : Ref SessionState) :
    ∃ stores readings now, w.beginRun input runId token feed sessionId committed e =
      (({ sessionId, runId, state := ⟨e.states.items.length⟩, token, feed, bus := w.bus,
          stepDefaults := w.stepDefaults },
        { WorkflowRun.pending runId sessionId w.id w.name now with
          status := .running
          media := input.media },
        e.states.get committed),
        { e with
          stores
          readings
          states := ⟨e.states.items ++ [e.states.get committed]⟩
          journal := (runId, .began (e.states.get committed)) :: e.journal }) := by
  let base := e.states.get committed
  let begun := ((e.note runId (.began base)).addState base).2.readClock
  obtain ⟨stores, readings, hp⟩ := persist_frame w begun.2
    { WorkflowRun.pending runId sessionId w.id w.name begun.1 with
      status := .running
      media := input.media } committed
  exact ⟨stores, readings, begun.1, Prod.ext rfl hp⟩

/-- How the announcement of a run comes out: its workflow is not valid, or its session cannot be
prepared, or the run is written to the store under a fresh identifier. -/
theorem announceRun_split {r : Except Fault String} {e' : Engine} (h : w.announceRun e = (r, e')) :
    (∃ fault, w.validate = .error fault ∧ r = .error fault ∧ e' = e) ∨
    w.validate = .ok () ∧
      ((∃ fault, w.prepareSession e = (.error fault, e') ∧ r = .error fault) ∨
        ∃ sessionId committed e₁ q, w.prepareSession e = (.ok (sessionId, committed), e₁) ∧
          w.persist (.pending (Ident.ofNat e₁.generated) sessionId w.id w.name e₁.readClock.1)
            committed e₁.freshId.2.readClock.2 = (q, e') ∧
          r = q.map fun _ => Ident.ofNat e₁.generated) := by
  unfold announceRun at h
  cases hv : w.validate with
  | error fault =>
    simp only [hv] at h
    obtain ⟨rfl, rfl⟩ := Prod.mk.inj h
    exact .inl ⟨fault, rfl, rfl, rfl⟩
  | ok =>
    refine .inr ⟨rfl, ?_⟩
    rcases hp : w.prepareSession e with ⟨prepared, e₁⟩
    simp only [hv, hp] at h
    cases prepared with
    | error fault =>
      obtain ⟨rfl, rfl⟩ := Prod.mk.inj h
      exact .inl ⟨fault, rfl, rfl⟩
    | ok place =>
      obtain ⟨sessionId, committed⟩ := place
      refine .inr ⟨sessionId, committed, e₁, ?_⟩
      dsimp only at h
      split at h
      · rename_i fault e₂ hpersist
        obtain ⟨rfl, rfl⟩ := Prod.mk.inj h
        exact ⟨_, rfl, hpersist, rfl⟩
      · rename_i e₂ hpersist
        obtain ⟨rfl, rfl⟩ := Prod.mk.inj h
        exact ⟨_, rfl, hpersist, rfl⟩

/-- Only the last of these touches more than the preparation of the session does: the store, the clock
and what identifiers were given. -/
theorem announceRun_cases {r : Except Fault String} {e' : Engine}
    (h : w.announceRun e = (r, e')) :
    (∃ fault, r = .error fault ∧ e' = e) ∨
    (∃ fault, r = .error fault ∧ w.prepareSession e = (.error fault, e')) ∨
    ∃ place e₁ stores readings, w.prepareSession e = (.ok place, e₁) ∧
      e' = { e₁ with stores, readings, generated := e₁.generated + 1 } ∧
      ∀ runId, r = .ok runId → runId = Ident.ofNat e₁.generated := by
  rcases announceRun_split w e h with ⟨fault, -, rfl, rfl⟩ | ⟨-, ⟨fault, hp, rfl⟩ |
    ⟨sessionId, committed, e₁, q, hp, hpersist, rfl⟩⟩
  · exact .inl ⟨fault, rfl, rfl⟩
  · exact .inr (.inl ⟨fault, rfl, hp⟩)
  · obtain ⟨stores, readings, hframe⟩ := persist_frame w e₁.freshId.2.readClock.2
      (.pending (Ident.ofNat e₁.generated) sessionId w.id w.name e₁.readClock.1) committed
    rw [hpersist] at hframe
    refine .inr (.inr ⟨_, e₁, stores, readings, hp, hframe, fun runId hr => ?_⟩)
    cases q with
    | error fault => cases hr
    | ok => exact (Except.ok.inj hr).symm

/-- A run that ends merges its changes when it is completed, is written, and notes its end. -/
theorem endRun_eq (run : WorkflowRun) (fault : Option Fault) (state committed : Ref SessionState)
    (base : SessionState) :
    w.endRun run fault state committed base e =
      (w.persist run committed
        { e with
          states := if run.status = .completed then e.states.set committed
              (SessionState.merge (e.states.get committed) base (e.states.get state))
            else e.states }).2.note run.runId (.ended fault run (e.states.get state)) := by
  unfold endRun
  dsimp only
  split
  · rfl
  · rfl

theorem endRun_frame (run : WorkflowRun) (fault : Option Fault) (state committed : Ref SessionState)
    (base : SessionState) :
    ∃ stores readings, w.endRun run fault state committed base e =
      { e with
        stores
        readings
        states := if run.status = .completed then e.states.set committed
            (SessionState.merge (e.states.get committed) base (e.states.get state))
          else e.states
        journal := (run.runId, .ended fault run (e.states.get state)) :: e.journal } := by
  rw [endRun_eq]
  obtain ⟨stores, readings, hp⟩ := persist_frame w _ run committed
  rw [hp]
  exact ⟨stores, readings, rfl⟩

/-! ## Readings of the clock -/

theorem readings_storedSession_le (sessionId : String) :
    (w.storedSession sessionId e).2.readings ≤ e.readings + 1 := by
  unfold storedSession
  split
  · exact Nat.le_refl _
  · exact Nat.le_succ _

/-- The preparation of a session reads the clock once at most. -/
theorem readings_prepareSession_le : (w.prepareSession e).2.readings ≤ e.readings + 1 := by
  have hle := readings_storedSession_le w e (w.session e).id
  rcases hp : w.prepareSession e with ⟨r, e'⟩
  rcases prepareSession_split w e hp with ⟨-, -, rfl⟩ |
    ⟨-, ⟨fault, hstored, -⟩ | ⟨found, e₁, hstored, -, rfl⟩⟩
  · exact Nat.le_succ _
  · rwa [hstored] at hle
  · rwa [hstored] at hle

/-- A run that is written reads the clock three times at most. -/
theorem readings_persist_le (run : WorkflowRun) (committed : Ref SessionState) : (w.persist run committed e).2.readings ≤ e.readings + 3 := by
  unfold persist
  cases w.store with
  | none => exact Nat.le_add_right ..
  | some store =>
    dsimp only
    rcases hread : e.readSession store run.sessionId with ⟨found, e₁⟩
    have hreadings : e₁.readings = e.readings + 1 := by
      have he : e₁ = (e.readSession store run.sessionId).2 := (congrArg Prod.snd hread).symm
      exact he ▸ rfl
    cases found with
    | error fault =>
      simp only [hreadings]
      omega
    | ok found => simp [Engine.upsertSession, Engine.readClock, hreadings]

theorem readings_endRun_le (run : WorkflowRun) (fault : Option Fault)
    (state committed : Ref SessionState) (base : SessionState) :
    (w.endRun run fault state committed base e).readings ≤ e.readings + 3 := by
  rw [endRun_eq]
  exact readings_persist_le ..

theorem readings_beginRun_le (input : ExecutionInput) (runId : String)
    (token : Ref CancelToken) (feed : Option (Ref Feed)) (sessionId : String)
    (committed : Ref SessionState) :
    (w.beginRun input runId token feed sessionId committed e).2.readings ≤ e.readings + 4 :=
  readings_persist_le w
    ((e.note runId (.began (e.states.get committed))).addState (e.states.get committed)).2.readClock.2
    _ committed

end WorkflowEngine.Workflow
