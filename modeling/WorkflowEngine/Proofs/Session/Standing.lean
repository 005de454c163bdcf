import WorkflowEngine.Proofs.Session.Effects
import WorkflowEngine.Proofs.Workflow.Stages
import WorkflowEngine.Proofs.Workflow.Tours

/-!
# Runs on a session

How a run under way stands to the session it works in. A move of one run is a step to its next
stage and has a known effect on the session; it leaves every other run where it stands.
-/

namespace WorkflowEngine.Workflow

variable {home w : Workflow} {e e' : Engine}

/-- How a run under way stands to the session, with its identifier while it has not ended. -/
inductive Stands (home : Workflow) (e : Engine) :
    Option String → Fiber Engine (Except Fault WorkflowRun) → Prop
  | called {w : Workflow} {input : ExecutionInput} {token : Ref CancelToken} (hw : home.Shares w) :
      Stands home e none (w.run input token)
  | entering {w : Workflow} {input : ExecutionInput} {runId : String} {token : Ref CancelToken}
      {feed : Option (Ref Feed)} (hw : home.Shares w) (hg : Given e runId)
      (hb : e.journal.base? runId = none) :
      Stands home e (some runId) (w.executeRun input runId token feed)
  | starting {w : Workflow} {input : ExecutionInput} {runId : String} {token : Ref CancelToken}
      {feed : Option (Ref Feed)} {sessionId : String} (hw : home.Shares w) (hg : Given e runId)
      (hb : e.journal.base? runId = none) (hl : (home.session e).loaded = true) :
      Stands home e (some runId)
        (w.starting input runId token feed sessionId (home.session e).state)
  | working {w : Workflow} {ctx : RunContext} {base : SessionState}
      {q : Fiber Engine (WorkflowRun × Option Fault)}
      {A : Account Happening (WorkflowRun × Option Fault)} (hg : Given e ctx.runId)
      (hl : (home.session e).loaded = true) (hbase : e.journal.base? ctx.runId = some base)
      (hs : ctx.state ≠ (home.session e).state) (hq : Fiber.Obeys ctx.discipline q A)
      (hA : ∀ t out, A t (some out) → out.1.runId = ctx.runId) :
      Stands home e (some ctx.runId) (q.bind (w.leave ctx (home.session e).state base))
  | finished {ctx : RunContext} {p : Fiber Engine (Except Fault WorkflowRun)}
      (hs : ctx.state ≠ (home.session e).state) (hp : ctx.Silent p) : Stands home e none p

/-- A run stands where it stood after an act of another one. -/
theorem Stands.respected {own id : Option String} {p : Fiber Engine (Except Fault WorkflowRun)}
    (h : Stands home e id p) (hr : home.Respects own e e')
    (hne : ∀ runId, id = some runId → own ≠ some runId) : Stands home e' id p := by
  cases h with
  | called hw => exact .called hw
  | entering hw hg hb =>
    exact .entering hw (hg.mono hr.generated) ((hr.base _ (hne _ rfl)).trans hb)
  | starting hw hg hb hl =>
    rw [← hr.place]
    exact .starting hw (hg.mono hr.generated) ((hr.base _ (hne _ rfl)).trans hb) (hr.loaded hl)
  | working hg hl hbase hs hq hA =>
    rw [← hr.place]
    rw [← hr.place] at hs
    exact .working (hg.mono hr.generated) (hr.loaded hl)
      ((hr.base _ (hne _ rfl)).trans hbase) hs hq hA
  | finished hs hp => exact .finished (by rwa [hr.place]) hp

/-- An identifier of a run that may not have been in use before. -/
def Fresh (e e' : Engine) (id id' : Option String) : Prop :=
  ∀ runId, id' = some runId →
    id = some runId ∨ ∃ n, e.generated ≤ n ∧ n < e'.generated ∧ runId = Ident.ofNat n

/-- A context for what is over, whose working copy is not the committed state. -/
private def elsewhere (committed : Ref SessionState) : RunContext :=
  { sessionId := "", runId := "", state := ⟨committed.index + 1⟩, token := ⟨0⟩ }

private theorem elsewhere_ne (committed : Ref SessionState) :
    (elsewhere committed).state ≠ committed := fun h =>
  Nat.succ_ne_self _ (congrArg Ref.index h)

private theorem stands_done (r : Except Fault WorkflowRun) :
    Stands home e none (.done r) :=
  .finished (elsewhere_ne (home.session e).state) (RunContext.Silent.done r)

/-- A run that has begun is at work on a copy of the committed state. -/
private theorem stands_begun {input : ExecutionInput} {runId : String} {token : Ref CancelToken}
    {feed : Option (Ref Feed)} {sessionId : String} {ctx : RunContext} {run : WorkflowRun}
    {base : SessionState} (hg : Given e runId) (hl : (home.session e).loaded = true)
    (hs : (home.session e).state.index < e.states.items.length)
    (hb : w.beginRun input runId token feed sessionId (home.session e).state e =
      ((ctx, run, base), e')) :
    Stands home e' (some runId)
      ((w.work input ctx run).bind (w.leave ctx (home.session e).state base)) := by
  obtain ⟨stores, readings, now, hframe⟩ :=
    beginRun_frame w e input runId token feed sessionId (home.session e).state
  rw [hframe] at hb
  simp only [Prod.mk.injEq] at hb
  obtain ⟨⟨hctx, hrun, rfl⟩, rfl⟩ := hb
  have hid : ctx.runId = runId := hctx ▸ rfl
  have hstate : ctx.state = ⟨e.states.items.length⟩ := hctx ▸ rfl
  rw [← hid] at hg ⊢
  refine .working hg hl ?_ ?_ (obeys_work w input run) fun t out h => ?_
  · rw [Journal.base?, if_pos rfl]
  · rw [hstate]
    exact fun h => Nat.ne_of_lt hs (congrArg Ref.index h).symm
  · rw [runId_of_account h, ← hrun]
    exact hid.symm

/-- No run has begun under an identifier that is yet to be given. -/
theorem base_of_fresh
    (hbegun : ∀ runId base, e.journal.base? runId = some base → Given e runId) {n : Nat}
    (hn : e.generated ≤ n) : e.journal.base? (Ident.ofNat n) = none := by
  cases hb : e.journal.base? (Ident.ofNat n) with
  | none => rfl
  | some base =>
    obtain ⟨m, hm, heq⟩ := hbegun _ _ hb
    exact absurd (Ident.ofNat_injective heq) (Nat.ne_of_gt (Nat.lt_of_lt_of_le hm hn))

/-- A move of a run respects the session and has one of the known effects, and the run stands in
its next stage. -/
theorem Stands.moves {id : Option String} {p p' : Fiber Engine (Except Fault WorkflowRun)}
    (h : Stands home e id p) (hi : home.slot.index < e.slots.items.length)
    (hs : (home.session e).state.index < e.states.items.length)
    (hbegun : ∀ runId base, e.journal.base? runId = some base → Given e runId)
    (hm : Fiber.Moves p e p' e') :
    home.Respects id e e' ∧ home.Effect e e' ∧
      ∃ id', Fresh e e' id id' ∧ Stands home e' id' p' := by
  cases h with
  | called hw =>
    cases hm
    have hg : Given e.freshId.2 e.freshId.1 := ⟨e.generated, Nat.lt_succ_self _, rfl⟩
    refine ⟨respects_freshId e, .spared (spares_frame _ _ _), some e.freshId.1, ?_,
      .entering hw hg (base_of_fresh hbegun (Nat.le_refl _))⟩
    rintro runId ⟨⟩
    exact .inr ⟨e.generated, Nat.le_refl _, Nat.lt_succ_self _, rfl⟩
  | entering hw hg hb =>
    obtain ⟨-, r, hp, rfl⟩ := moves_executeRun hm
    obtain ⟨hr, hplace⟩ := respects_prepareSession hw hi hp (some _)
    have hkept := fun runId =>
      (respects_prepareSession hw hi hp none).1.base runId fun h => nomatch h
    refine ⟨hr, effect_prepareSession hw hi hs hp, ?_⟩
    cases r with
    | error fault => exact ⟨none, nofun, stands_done _⟩
    | ok place =>
      obtain ⟨hl, hc⟩ := hplace place.1 place.2 rfl
      refine ⟨_, fun _ h => .inl h, ?_⟩
      dsimp only
      rw [hc]
      exact .starting hw (hg.mono hr.generated) ((hkept _).trans hb) hl
  | starting hw hg hnone hl =>
    obtain ⟨ctx, run, base, hb, rfl⟩ := moves_starting hm
    have he : e' = _ := (congrArg Prod.snd hb).symm
    refine ⟨he ▸ respects_beginRun, he ▸ effect_beginRun hg hnone hs, some _, fun _ h => .inl h,
      stands_begun hg hl hs hb⟩
  | @working w ctx base q A hg hl hbase hne hq hA =>
    rcases moves_working hm with ⟨q', hq', rfl⟩ | ⟨run, fault, rfl, rfl, rfl⟩
    · obtain ⟨t, ht, hq'⟩ := hq.of_moves hq'
      have hr : home.Respects none e e' := respects_acts ht none
      refine ⟨respects_acts ht _, .spared (spares_acts ht hne), some _, fun _ h => .inl h, ?_⟩
      rw [← hr.place] at hne ⊢
      exact .working (hg.mono hr.generated) (hr.loaded hl)
        ((hr.base _ fun h => nomatch h).trans hbase) hne hq' fun u out hu => hA _ out hu
    · have hend : home.Respects none e
          (w.endRun (run.conclude fault) fault ctx.state (home.session e).state base e) :=
        respects_endRun none
      have hrun : (run.conclude fault).runId = ctx.runId :=
        (run.runId_conclude fault).trans (hA [] _ hq)
      refine ⟨respects_endRun _, .ended hl (hend.loaded hl) (hrun ▸ hbase) journal_endRun
        fun initial h => sessionState_endRun hs (hrun ▸ hbase) initial h, none,
        (fun _ h => nomatch h), ?_⟩
      rw [← hend.place] at hne
      exact .finished hne (silent_leaving ctx _)
  | finished hne hp =>
    obtain ⟨ht, hp'⟩ := hp.of_moves hm
    have hr : home.Respects none e e' := respects_acts ht none
    rw [← hr.place] at hne
    exact ⟨hr, .spared (spares_acts ht (hr.place ▸ hne)), none, (fun _ h => nomatch h),
      .finished hne hp'⟩

/-- A run that is aborted respects the session and spares it. -/
theorem Stands.crashes {id : Option String} {p : Fiber Engine (Except Fault WorkflowRun)}
    (h : Stands home e id p) (hc : Fiber.Crashes p e e') :
    home.Respects id e e' ∧ home.Spares e e' := by
  cases h with
  | called hw => cases hc
  | @entering w input runId token feed hw hg hb =>
    cases hv : w.validate with
    | error fault =>
      rw [executeRun_refused hv] at hc
      cases hc
    | ok =>
      unfold executeRun at hc
      rw [hv] at hc
      cases hc
  | starting hw hg hb hl => cases hc
  | working hg hl hbase hne hq hA =>
    rcases Fiber.crashes_of_bind hc with hc | ⟨⟨run, fault⟩, -, hc⟩
    · obtain ⟨t, ht, -⟩ := Fiber.Obeys.of_crashes hc hq
      exact ⟨respects_acts ht _, spares_acts ht hne⟩
    · cases hc
  | finished hne hp =>
    obtain ⟨t, ht, -⟩ := Fiber.Obeys.of_crashes hc hp
    exact ⟨respects_acts ht _, spares_acts ht hne⟩

theorem Stands.given {runId : String} {p : Fiber Engine (Except Fault WorkflowRun)}
    (h : Stands home e (some runId) p) : Given e runId := by
  cases h with
  | entering hw hg hb => exact hg
  | starting hw hg hb hl => exact hg
  | working hg hl hbase hne hq hA => exact hg

end WorkflowEngine.Workflow
