import WorkflowEngine.Proofs.Session.Deeds
import WorkflowEngine.Proofs.Workflow.Stories

/-!
# Ledgers of runs

What holds of the engine and of the points of the runs whatever happens: the session, its state and
its store stay where they are or are replaced by others that are there, nothing is taken back, and
no two runs have one identifier.
-/

namespace WorkflowEngine.Workflow

open Situation (Kind)

/-- The session of a workflow, its committed state and its store are there. -/
structure Seated (home : Workflow) (e : Engine) : Prop where
  slot : home.slot.index < e.slots.items.length
  state : (home.session e).state.index < e.states.items.length
  store : ∀ store, home.store = some store → store.index < e.stores.items.length

/-- Nothing is taken back. -/
structure Grows (home : Workflow) (e e' : Engine) : Prop where
  states : e.states.items.length ≤ e'.states.items.length
  generated : e.generated ≤ e'.generated
  seated : home.Seated e → home.Seated e'

variable {home w : Workflow} {e e' e'' : Engine} {kind : Kind}

namespace Grows

theorem trans (h : home.Grows e e') (h' : home.Grows e' e'') : home.Grows e e'' :=
  ⟨Nat.le_trans h.states h'.states, Nat.le_trans h.generated h'.generated,
    fun hs => h'.seated (h.seated hs)⟩

/-- The committed state stays in its place. -/
theorem of_place (hslots : e'.slots.items.length = e.slots.items.length)
    (hplace : home.Seated e → (home.session e').state = (home.session e).state)
    (hstates : e.states.items.length ≤ e'.states.items.length)
    (hgenerated : e.generated ≤ e'.generated)
    (hstores : e'.stores.items.length = e.stores.items.length) : home.Grows e e' := by
  refine ⟨hstates, hgenerated, fun hs => ⟨hslots ▸ hs.slot, ?_, fun store h => ?_⟩⟩
  · rw [hplace hs]
    exact Nat.lt_of_lt_of_le hs.state hstates
  · rw [hstores]
    exact hs.store store h

end Grows

theorem session_modifySession (hs : home.slot.index < e.slots.items.length)
    (f : SessionSlot → SessionSlot) :
    home.session (home.modifySession f e) = f (home.session e) :=
  Pool.get_modify_self hs f

private theorem grows_modify {f : SessionSlot → SessionSlot} (hf : ∀ s, (f s).state = s.state) :
    home.Grows e (home.modifySession f e) :=
  .of_place (Pool.size_modify ..)
    (fun hs => by rw [session_modifySession hs.slot, hf]) (Nat.le_refl _) (Nat.le_refl _) rfl

private theorem grows_setState (r : Ref SessionState) (s : SessionState) :
    home.Grows e (e.setState r s) :=
  .of_place rfl (fun _ => rfl) (Nat.le_of_eq (Pool.size_set e.states r s).symm) (Nat.le_refl _) rfl

theorem grows_persist (run : WorkflowRun) (committed : Ref SessionState) :
    home.Grows e (w.persist run committed e).2 := by
  unfold persist
  split
  · exact .of_place rfl (fun _ => rfl) (Nat.le_refl _) (Nat.le_refl _) rfl
  · rename_i store _
    rcases hr : e.readSession store run.sessionId with ⟨result, e₁⟩
    have he : e₁ = (e.readSession store run.sessionId).2 := (congrArg Prod.snd hr).symm
    cases result with
    | error fault =>
      rw [he]
      exact .of_place rfl (fun _ => rfl) (Nat.le_refl _) (Nat.le_refl _) (Pool.size_set ..)
    | ok found =>
      rw [he]
      exact .of_place rfl (fun _ => rfl) (Nat.le_refl _) (Nat.le_refl _)
        ((Pool.size_set ..).trans (Pool.size_set ..))

private theorem grows_storedSession {sessionId : String}
    {q : Except Fault (Option SessionRecord)} (h : w.storedSession sessionId e = (q, e')) :
    home.Grows e e' := by
  obtain rfl : (w.storedSession sessionId e).2 = e' := congrArg Prod.snd h
  unfold storedSession
  split
  · exact .of_place rfl (fun _ => rfl) (Nat.le_refl _) (Nat.le_refl _) (Pool.size_set ..)
  · exact .of_place rfl (fun _ => rfl) (Nat.le_refl _) (Nat.le_refl _) rfl

theorem grows_prepareSession {r : Except Fault (String × Ref SessionState)}
    (h : home.prepareSession e = (r, e')) : home.Grows e e' := by
  rcases prepareSession_split home e h with ⟨-, -, rfl⟩ |
    ⟨-, ⟨fault, hstored, -⟩ | ⟨found, e₁, hstored, -, rfl⟩⟩
  · exact .of_place rfl (fun _ => rfl) (Nat.le_refl _) (Nat.le_refl _) rfl
  · exact grows_storedSession hstored
  · have hread : home.Grows e e₁ := grows_storedSession hstored
    cases found with
    | none => exact hread.trans (grows_modify fun _ => rfl)
    | some record => exact (hread.trans (grows_setState ..)).trans (grows_modify fun _ => rfl)

/-- The preparation of a session gives the session and the place of its state, and is not done a
second time. -/
theorem session_prepareSession (hs : home.Seated e)
    {r : Except Fault (String × Ref SessionState)} (h : home.prepareSession e = (r, e')) :
    (∃ fault, r = .error fault ∧ home.session e' = home.session e) ∨
      r = .ok ((home.session e).id, (home.session e).state) ∧
        home.session e' = { home.session e with loaded := true } := by
  rcases prepareSession_cases home e h with ⟨hl, rfl, rfl⟩ |
    ⟨-, ⟨fault, stores, readings, -, rfl, rfl⟩ | ⟨found, stores, readings, -, rfl, rfl⟩⟩
  · refine .inr ⟨rfl, ?_⟩
    rw [← hl]
  · exact .inl ⟨fault, rfl, rfl⟩
  · refine .inr ⟨rfl, ?_⟩
    exact session_modifySession (by exact hs.slot) _

theorem Shares.grows_announceRun (hw : home.Shares w) {r : Except Fault String}
    (h : w.announceRun e = (r, e')) : home.Grows e e' := by
  rcases announceRun_split w e h with ⟨fault, -, -, rfl⟩ | ⟨-, ⟨fault, hp, -⟩ |
    ⟨sessionId, committed, e₁, q, hp, hpersist, -⟩⟩
  · exact .of_place rfl (fun _ => rfl) (Nat.le_refl _) (Nat.le_refl _) rfl
  · rw [hw.prepareSession] at hp
    exact grows_prepareSession hp
  · rw [hw.prepareSession] at hp
    have hfresh : home.Grows e₁ e₁.freshId.2.readClock.2 :=
      .of_place rfl (fun _ => rfl) (Nat.le_refl _) (Nat.le_succ _) rfl
    have hwritten : home.Grows e₁.freshId.2.readClock.2 (_, e').2 := hpersist ▸ grows_persist ..
    exact ((grows_prepareSession hp).trans hfresh).trans hwritten

theorem grows_acts {ctx : RunContext} {t : List Happening} (h : ctx.Acts e t e') :
    home.Grows e e' :=
  .of_place (by rw [h.slots]) (fun _ => by rw [session, session, h.slots])
    (Nat.le_of_eq h.size.symm) (Nat.le_of_eq h.generated.symm) (by rw [h.stores])

theorem grows_aside (h : home.Aside e e') : home.Grows e e' := by
  have hkept {α : Type} {p p' : Pool α} {r : Ref α} (hr : r.index < p.items.length)
      (hget : p'.get? r = p.get? r) : r.index < p'.items.length := by
    simp only [Pool.get?] at hget
    rw [List.getElem?_eq_getElem hr] at hget
    exact (List.getElem?_eq_some_iff.1 hget).1
  refine ⟨h.size, h.generated, fun hs => ⟨hkept hs.slot h.slot, ?_, fun store hstore => ?_⟩⟩
  · rw [session_apart h.toApart]
    exact Nat.lt_of_lt_of_le hs.state h.size
  · exact hkept (hs.store store hstore) (h.stores store hstore)

theorem Passes.grows {point point' : Point} (h : home.Passes point e point' e') :
    home.Grows e e' := by
  cases h with
  | call => exact .of_place rfl (fun _ => rfl) (Nat.le_refl _) (Nat.le_succ _) rfl
  | refuse h => exact grows_prepareSession h
  | enter h => exact grows_prepareSession h
  | @begin w input runId token feed sessionId committed _ _ ctx run base hw h =>
    have he : e' = _ := (congrArg Prod.snd h).symm
    let base := e.states.get committed
    have hfirst : home.Grows e ((e.note runId (.began base)).addState base).2.readClock.2 :=
      .of_place rfl (fun _ => rfl) (by simp [Engine.addState, Pool.add, Engine.readClock,
        Engine.note]) (Nat.le_refl _) rfl
    rw [he]
    exact hfirst.trans (grows_persist _ _)
  | work h => exact grows_acts h
  | @leave w ctx committed base _ run fault hw hrun hterminal =>
    rw [endRun_eq]
    have hnote (e : Engine) (h : Happening) : home.Grows e (e.note run.runId h) :=
      .of_place rfl (fun _ => rfl) (Nat.le_refl _) (Nat.le_refl _) rfl
    refine (Grows.trans ?_ (grows_persist run committed)).trans (hnote _ _)
    split
    · exact grows_setState ..
    · exact .of_place rfl (fun _ => rfl) (Nat.le_refl _) (Nat.le_refl _) rfl
  | tell h => exact grows_acts h

theorem Call.grows {started : List Point} (h : home.Call kind e started e') :
    home.Grows e e' := by
  cases h with
  | run => exact .of_place rfl (fun _ => rfl) (Nat.le_refl _) (Nat.le_refl _) rfl
  | stream => exact .of_place rfl (fun _ => rfl) (Nat.le_refl _) (Nat.le_succ _) rfl
  | spawn hw h => exact hw.grows_announceRun h
  | refuse hw h => exact hw.grows_announceRun h
  | other h => exact grows_aside h
  | rename hs sessionId name =>
    exact .of_place rfl (fun _ => rfl) (Nat.le_refl _) (Nat.le_refl _) (Pool.size_set ..)
  | fresh =>
    refine ⟨by simp [newSession, Engine.freshId, Engine.addState, Pool.add, modifySession],
      Nat.le_succ _, fun hs => ⟨?_, ?_, hs.store⟩⟩
    · exact (Pool.size_modify e.slots home.slot _).symm ▸ hs.slot
    · have hget : home.session (home.newSession e).2 =
          { id := Ident.ofNat e.generated, state := ⟨e.states.items.length⟩, loaded := false } :=
        Pool.get_modify_self hs.slot _
      rw [hget]
      simp [newSession, Engine.freshId, Engine.addState, Pool.add, modifySession]
  | attach sessionId => exact grows_modify fun _ => rfl

theorem Turn.grows {points points' : List Point} (h : home.Turn kind e points e' points') :
    home.Grows e e' := by
  cases h with
  | call h => exact h.grows
  | pass h => exact h.grows
  | abort h =>
    cases h with
    | work h => exact grows_acts h
    | again => exact .of_place rfl (fun _ => rfl) (Nat.le_refl _) (Nat.le_refl _) rfl

/-! ## Journals -/

theorem Passes.journal {point point' : Point} (h : home.Passes point e point' e') :
    ∀ a ∈ e.journal, a ∈ e'.journal := by
  intro a ha
  cases h with
  | call => exact ha
  | refuse h | enter h =>
    rw [journal_prepareSession h]
    exact ha
  | @begin w _ _ _ _ _ _ _ _ _ _ _ hw h =>
    obtain ⟨stores, readings, now, hframe⟩ := beginRun_frame w e _ _ _ _ _ _
    rw [hframe] at h
    cases h
    exact List.mem_cons_of_mem _ ha
  | work h | tell h =>
    rw [h.journal]
    exact List.mem_append_right _ ha
  | leave hw hrun hterminal =>
    rw [journal_endRun]
    exact List.mem_cons_of_mem _ ha

theorem Call.journal {started : List Point} (h : home.Call kind e started e') :
    e'.journal = e.journal := by
  have hannounce {w : Workflow} {r : Except Fault String} (ha : w.announceRun e = (r, e')) :
      e'.journal = e.journal := by
    rcases announceRun_cases w e ha with ⟨fault, -, rfl⟩ | ⟨fault, -, hp⟩ |
      ⟨place, e₁, stores, readings, hp, rfl, -⟩
    · rfl
    · exact journal_prepareSession hp
    · have hj : e₁.journal = e.journal := journal_prepareSession hp
      exact hj
  cases h with
  | spawn hw ha | refuse hw ha => exact hannounce ha
  | other ho => exact ho.journal
  | run | stream | rename | fresh | attach => rfl

theorem Turn.journal {points points' : List Point} (h : home.Turn kind e points e' points') :
    ∀ a ∈ e.journal, a ∈ e'.journal := by
  intro a ha
  cases h with
  | call h => exact h.journal ▸ ha
  | pass h => exact h.journal a ha
  | abort h =>
    cases h with
    | work h =>
      rw [h.journal]
      exact List.mem_append_right _ ha
    | again => exact ha

/-! ## Identifiers -/

/-- The identifiers of the runs were given, each to one run. -/
structure Distinct (e : Engine) (points : List Point) : Prop where
  given : ∀ point ∈ points, ∀ runId, point.runId? = some runId → Given e runId
  apart : points.Pairwise fun a b => ∀ runId, a.runId? = some runId → b.runId? ≠ some runId

/-- A run keeps its identifier or gets one that was not given before. -/
theorem Passes.fresh {point point' : Point} (h : home.Passes point e point' e') :
    Fresh e e' point.runId? point'.runId? := by
  intro runId hid
  cases h with
  | call =>
    cases hid
    exact .inr ⟨e.generated, Nat.le_refl _, Nat.lt_succ_self _, rfl⟩
  | refuse h => cases hid
  | enter h => exact .inl hid
  | @begin w _ _ _ _ _ _ _ _ ctx run base hw h =>
    obtain ⟨stores, readings, now, hframe⟩ := beginRun_frame w e _ _ _ _ _ _
    rw [hframe] at h
    cases h
    exact .inl hid
  | work h => exact .inl hid
  | leave hw hrun hterminal => exact .inl hid
  | tell h => exact .inl hid

namespace Distinct

variable {points before after : List Point} {point point' : Point}

theorem nil : Distinct e [] := ⟨by simp, .nil⟩

theorem mono (h : Distinct e points) (hg : e.generated ≤ e'.generated) : Distinct e' points :=
  ⟨fun point hp runId hid => (h.given point hp runId hid).mono hg, h.apart⟩

/-- An identifier that is given next has no run yet. -/
theorem ne_of_fresh (h : Distinct e points) (hp : point ∈ points) {n : Nat}
    (hn : e.generated ≤ n) : point.runId? ≠ some (Ident.ofNat n) := by
  intro hid
  obtain ⟨m, hm, heq⟩ := h.given point hp _ hid
  have := Ident.ofNat_injective heq
  omega

theorem add (h : Distinct e points) (hg : e.generated ≤ e'.generated)
    (hfresh : Fresh e e' none point.runId?) : Distinct e' (points ++ [point]) := by
  refine ⟨fun p hp runId hid => ?_, List.pairwise_append.2
    ⟨h.apart, List.pairwise_singleton _ _, fun p hp q hq runId hid hid' => ?_⟩⟩
  · rcases List.mem_append.1 hp with hp | hp
    · exact (h.given p hp runId hid).mono hg
    · obtain rfl := List.mem_singleton.1 hp
      rcases hfresh runId hid with hid | ⟨n, -, hn, rfl⟩
      · cases hid
      · exact ⟨n, hn, rfl⟩
  · obtain rfl := List.mem_singleton.1 hq
    rcases hfresh runId hid' with hid' | ⟨n, hn, -, rfl⟩
    · cases hid'
    · exact h.ne_of_fresh hp hn hid

/-- The other runs have other identifiers. -/
theorem others (h : Distinct e (before ++ point :: after)) {runId : String}
    (hid : point.runId? = some runId) : ∀ p ∈ before ++ after, p.runId? ≠ some runId := by
  obtain ⟨-, hp, hb⟩ := List.pairwise_append.1 h.apart
  intro p hmem hid'
  rcases List.mem_append.1 hmem with hmem | hmem
  · exact hb p hmem point (List.mem_cons_self ..) runId hid' hid
  · exact (List.pairwise_cons.1 hp).1 p hmem runId hid hid'

theorem ne_of_ne (h : Distinct e points) {i k : Nat} {a b : Point} (hi : points[i]? = some a)
    (hk : points[k]? = some b) (hne : i ≠ k) {runId : String} (hid : a.runId? = some runId) :
    b.runId? ≠ some runId := by
  obtain ⟨hilt, rfl⟩ := List.getElem?_eq_some_iff.1 hi
  obtain ⟨hklt, rfl⟩ := List.getElem?_eq_some_iff.1 hk
  have hpairs := List.pairwise_iff_getElem.1 h.apart
  rcases Nat.lt_or_gt_of_ne hne with hlt | hgt
  · exact hpairs i k hilt hklt hlt runId hid
  · exact fun hid' => hpairs k i hklt hilt hgt runId hid' hid

theorem change (h : Distinct e (before ++ point :: after)) (hg : e.generated ≤ e'.generated)
    (hfresh : Fresh e e' point.runId? point'.runId?) :
    Distinct e' (before ++ point' :: after) := by
  have hmem {p : Point} (hp : p ∈ before ++ after) : p ∈ before ++ point :: after :=
    List.perm_middle.mem_iff.2 (List.mem_cons_of_mem _ hp)
  have hother : ∀ p ∈ before ++ after, ∀ runId, point'.runId? = some runId →
      p.runId? ≠ some runId := by
    intro p hp runId hid
    rcases hfresh runId hid with hid | ⟨n, hn, -, rfl⟩
    · exact h.others hid p hp
    · exact h.ne_of_fresh (hmem hp) hn
  obtain ⟨hb, hrest, hcross⟩ := List.pairwise_append.1 h.apart
  refine ⟨fun p hp runId hid => ?_, List.pairwise_append.2 ⟨hb, List.pairwise_cons.2
    ⟨fun p hp runId hid => hother p (by simp [hp]) runId hid, (List.pairwise_cons.1 hrest).2⟩,
    fun p hp q hq runId hid hid' => ?_⟩⟩
  · rcases List.mem_cons.1 (List.perm_middle.mem_iff.1 hp) with rfl | hp
    · rcases hfresh runId hid with hid | ⟨n, -, hn, rfl⟩
      · exact (h.given point (by simp) runId hid).mono hg
      · exact ⟨n, hn, rfl⟩
    · exact (h.given p (hmem hp) runId hid).mono hg
  · rcases List.mem_cons.1 hq with rfl | hq
    · exact hother p (by simp [hp]) runId hid' hid
    · exact hcross p hp q (by simp [hq]) runId hid hid'

end Distinct

/-- The identifier of an announced run was not given before. -/
theorem Shares.fresh_announceRun (hw : home.Shares w) {runId : String}
    (h : w.announceRun e = (.ok runId, e')) : Fresh e e' none (some runId) := by
  rintro _ ⟨⟩
  rcases announceRun_cases w e h with ⟨fault, hr, -⟩ | ⟨fault, hr, -⟩ |
    ⟨place, e₁, stores, readings, hp, rfl, hr⟩
  · cases hr
  · cases hr
  · rw [hw.prepareSession] at hp
    exact .inr ⟨e₁.generated, (grows_prepareSession hp).generated, Nat.lt_succ_self _,
      hr runId rfl⟩

/-- A run that starts has no identifier, or one that was not given before. -/
theorem Call.fresh_started {started : List Point} (h : home.Call kind e started e') :
    started = [] ∨ ∃ point, started = [point] ∧ Fresh e e' none point.runId? := by
  cases h with
  | run => exact .inr ⟨_, rfl, nofun⟩
  | stream =>
    refine .inr ⟨_, rfl, ?_⟩
    rintro _ ⟨⟩
    exact .inr ⟨e.generated, Nat.le_refl _, Nat.lt_succ_self _, rfl⟩
  | spawn hw h => exact .inr ⟨_, rfl, hw.fresh_announceRun h⟩
  | refuse hw h => exact .inl rfl
  | other h => exact .inl rfl
  | rename hs sessionId name => exact .inl rfl
  | fresh => exact .inl rfl
  | attach sessionId => exact .inl rfl

theorem Turn.distinct {points points' : List Point} (h : home.Turn kind e points e' points')
    (hd : Distinct e points) : Distinct e' points' := by
  have hg := h.grows.generated
  cases h with
  | call h =>
    rcases h.fresh_started with rfl | ⟨point, rfl, hfresh⟩
    · rw [List.append_nil]
      exact hd.mono hg
    · exact hd.add hg hfresh
  | pass h => exact hd.change hg h.fresh
  | abort h => exact hd.change hg nofun

end WorkflowEngine.Workflow
