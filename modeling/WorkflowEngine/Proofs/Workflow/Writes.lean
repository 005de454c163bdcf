import WorkflowEngine.Proofs.Store.Writing

/-!
# What runs write

With a store, the preparation of a session reads it once, and the announcement, the beginning and
the end of a run each write the run once. The frames of these calls, with what becomes of the store.
-/

namespace WorkflowEngine.Workflow

variable {w : Workflow} {store : Ref Store} {e e' : Engine}

/-- How the preparation of a session comes out on a store: it is loaded already, or it cannot be
read, or the stored entries are taken over. -/
theorem prepareSession_reads (hw : w.store = some store)
    {r : Except Fault (String × Ref SessionState)} (h : w.prepareSession e = (r, e')) :
    (w.session e).loaded = true ∧ r = .ok ((w.session e).id, (w.session e).state) ∧ e' = e ∨
    (w.session e).loaded = false ∧ ∃ q s now readings,
      (e.stores.get store).read (w.session e).id now = (q, s) ∧
      ((∃ fault, q = .error fault ∧ r = .error fault ∧
          e' = { e with stores := e.stores.set store s, readings }) ∨
        ∃ found, q = .ok found ∧ r = .ok ((w.session e).id, (w.session e).state) ∧
          e' = w.modifySession (fun s => { s with loaded := true })
            { e with
              stores := e.stores.set store s
              readings
              states := match found with
                | some record => e.states.set (w.session e).state
                    ((e.states.get (w.session e).state).insertMany record.state.entries)
                | none => e.states }) := by
  rcases prepareSession_split w e h with hloaded | ⟨hloaded, hstored⟩
  · exact .inl hloaded
  · rcases hread : (e.stores.get store).read (w.session e).id e.readClock.1 with ⟨q, s⟩
    have hcall : w.storedSession (w.session e).id e =
        (q, { e.readClock.2 with stores := e.stores.set store s }) := by
      rw [storedSession, hw]
      exact congrArg (fun p => (p.1, { e.readClock.2 with stores := e.stores.set store p.2 })) hread
    refine .inr ⟨hloaded, q, s, _, e.readClock.2.readings, hread, ?_⟩
    rw [hcall] at hstored
    rcases hstored with ⟨fault, hstored, rfl⟩ | ⟨found, e₁, hstored, rfl, rfl⟩
    · obtain ⟨rfl, rfl⟩ := Prod.mk.inj hstored
      exact .inl ⟨fault, rfl, rfl, rfl⟩
    · obtain ⟨rfl, rfl⟩ := Prod.mk.inj hstored
      exact .inr ⟨found, rfl, rfl, rfl⟩

/-- A run that begins is written as running, with the committed state. -/
theorem beginRun_writes (hw : w.store = some store) (hs : store.index < e.stores.items.length)
    (input : ExecutionInput) (runId : String) (token : Ref CancelToken) (feed : Option (Ref Feed))
    (sessionId : String) (committed : Ref SessionState) :
    ∃ q s now readings,
      let run : WorkflowRun :=
        { WorkflowRun.pending runId sessionId w.id w.name now with
          status := .running
          media := input.media }
      w.Written run
        ((w.beginRun input runId token feed sessionId committed e).2.states.get committed)
        (e.stores.get store) q s ∧
      w.beginRun input runId token feed sessionId committed e =
        (({ sessionId, runId, state := ⟨e.states.items.length⟩, token, feed, bus := w.bus,
            stepDefaults := w.stepDefaults },
          run,
          e.states.get committed),
          { e with
            stores := e.stores.set store s
            readings
            states := ⟨e.states.items ++ [e.states.get committed]⟩
            journal := (runId, .began (e.states.get committed)) :: e.journal }) := by
  let base := e.states.get committed
  let begun := ((e.note runId (.began base)).addState base).2.readClock
  let run : WorkflowRun :=
    { WorkflowRun.pending runId sessionId w.id w.name begun.1 with
      status := .running
      media := input.media }
  obtain ⟨q, s, readings, hwritten, hp⟩ := persist_written (e := begun.2) run committed hw hs
  have he := congrArg Prod.snd hp
  refine ⟨q, s, begun.1, readings, ?_, Prod.ext rfl he⟩
  have hstates := congrArg Engine.states he
  exact hstates ▸ hwritten

/-- A run that ends is written with its outcome, and with the committed state after it. -/
theorem endRun_writes (hw : w.store = some store) (hs : store.index < e.stores.items.length)
    (run : WorkflowRun) (fault : Option Fault) (state committed : Ref SessionState)
    (base : SessionState) :
    ∃ q s readings,
      w.Written run ((w.endRun run fault state committed base e).states.get committed)
        (e.stores.get store) q s ∧
      w.endRun run fault state committed base e =
        { e with
          stores := e.stores.set store s
          readings
          states := if run.status = .completed then e.states.set committed
              (SessionState.merge (e.states.get committed) base (e.states.get state))
            else e.states
          journal := (run.runId, .ended fault run (e.states.get state)) :: e.journal } := by
  rw [endRun_eq]
  let merged : Engine :=
    { e with
      states := if run.status = .completed then e.states.set committed
          (SessionState.merge (e.states.get committed) base (e.states.get state))
        else e.states }
  obtain ⟨q, s, readings, hwritten, hp⟩ := persist_written (e := merged) run committed hw hs
  rw [hp]
  exact ⟨q, s, readings, hwritten, rfl⟩

/-- How the announcement of a run comes out on a store: as far as the preparation of its session,
or the run is written as pending under a fresh identifier. -/
theorem announceRun_writes (hw : w.store = some store) (hs : store.index < e.stores.items.length)
    {r : Except Fault String} (h : w.announceRun e = (r, e')) :
    (∃ fault, r = .error fault ∧ e' = e) ∨
    (∃ fault, r = .error fault ∧ w.prepareSession e = (.error fault, e')) ∨
    ∃ sessionId committed e₁ q s readings,
      w.prepareSession e = (.ok (sessionId, committed), e₁) ∧
      w.Written (.pending (Ident.ofNat e₁.generated) sessionId w.id w.name e₁.readClock.1)
        (e₁.states.get committed) (e₁.stores.get store) q s ∧
      e' = { e₁ with
        stores := e₁.stores.set store s
        readings
        generated := e₁.generated + 1 } ∧
      r = q.map fun _ => Ident.ofNat e₁.generated := by
  rcases announceRun_split w e h with ⟨fault, -, rfl, rfl⟩ | ⟨-, ⟨fault, hp, rfl⟩ |
    ⟨sessionId, committed, e₁, q, hp, hpersist, rfl⟩⟩
  · exact .inl ⟨fault, rfl, rfl⟩
  · exact .inr (.inl ⟨fault, rfl, hp⟩)
  · have hs₁ : store.index < e₁.freshId.2.readClock.2.stores.items.length := by
      rcases prepareSession_reads hw hp with ⟨-, -, rfl⟩ |
        ⟨-, q, s, now, readings, -, ⟨fault, -, -, rfl⟩ | ⟨found, -, -, rfl⟩⟩
      · exact hs
      · simpa [Engine.freshId, Engine.readClock] using hs
      · simpa [Engine.freshId, Engine.readClock, modifySession] using hs
    obtain ⟨_, s, readings, hwritten, hwrite⟩ := persist_written
      (e := e₁.freshId.2.readClock.2)
      (.pending e₁.freshId.1 sessionId w.id w.name e₁.freshId.2.readClock.1) committed hw hs₁
    obtain ⟨rfl, rfl⟩ := Prod.mk.inj (hpersist.symm.trans hwrite)
    exact .inr (.inr ⟨sessionId, committed, e₁, q, s, readings, hp, hwritten, rfl, rfl⟩)

end WorkflowEngine.Workflow
