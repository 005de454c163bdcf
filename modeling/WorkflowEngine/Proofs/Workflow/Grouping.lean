import WorkflowEngine.Executor.Ready
import WorkflowEngine.Proofs.Node.Kinship
import WorkflowEngine.Proofs.Node.Media
import WorkflowEngine.Proofs.Node.Validation
import WorkflowEngine.Proofs.Workflow.Halting

/-!
# Nodes in a group

A workflow runs its nodes in one loop, a group runs its children in another. Main statement: whether the
nodes of a workflow stand at its top or in one group makes no difference to what a run without a fault calls,
to how it ends, and to the states of sessions; and none to the media that it keeps unless a node halts.
-/

namespace WorkflowEngine

open Fiber Node Relation

/-! ## Records of a run -/

namespace WorkflowRun

variable {run run' run'' run₀ : WorkflowRun} {o o' : StepOutput} {q : Sequence}

/-- The record of a run that has gone on without a failure. -/
structure Unharmed (run run' : WorkflowRun) : Prop where
  status : run'.status = run.status
  failure : run'.failure = run.failure

theorem Unharmed.trans (h : run.Unharmed run') (h' : run'.Unharmed run'') : run.Unharmed run'' :=
  ⟨h'.status.trans h.status, h'.failure.trans h.failure⟩

theorem unharmed_note (run : WorkflowRun) (h : o.halts = false) : run.Unharmed (run.note o) where
  status := by rw [status_note, if_pos (StepOutput.success_of_halts h)]
  failure := run.failure_note (StepOutput.success_of_halts h)

/-- What nodes have made of the record of a run, next to how they end as a sequence. -/
inductive Made (run : WorkflowRun) : WorkflowRun → Sequence → Prop
  | empty (input : StepInput) : Made run run (.empty input)
  | completed {run₀ : WorkflowRun} {o : StepOutput} {next : StepInput} {produced : MediaSet}
      (h : run.Unharmed run₀) (ho : o.halts = false)
      (hm : run₀.media ++ o.media = run.media ++ produced) :
      Made run (run₀.note o) (.completed o next produced)
  | halted {run₀ : WorkflowRun} {o : StepOutput} (h : run.Unharmed run₀) (ho : o.halts = true) :
      Made run (run₀.note o) (.halted o)

theorem Made.after (h : (run.note o).Made run' q) (ho : o.halts = false) :
    run.Made run' (q.after o) := by
  have hfirst := run.unharmed_note ho
  cases h with
  | empty input => exact .completed ⟨rfl, rfl⟩ ho rfl
  | completed h ho' hm =>
    refine .completed (hfirst.trans h) ho' ?_
    rw [hm, media_note, MediaSet.append_assoc]
  | halted h ho' => exact .halted (hfirst.trans h) ho'

/-- How the work of a run in two lists of nodes comes out: with a fault in both, or in neither. -/
inductive Matched (run : WorkflowRun) : WorkflowRun × Option Fault → Except Fault Sequence → Prop
  | fault (run' : WorkflowRun) (fault : Fault) : Matched run (run', some fault) (.error fault)
  | made {run' : WorkflowRun} {q : Sequence} (h : run.Made run' q) : Matched run (run', none) (.ok q)

/-- The record of a run of nodes and that of a run of one group of them. -/
structure Agrees (run run' : WorkflowRun) : Prop where
  status : run'.status = run.status
  content : run'.content = run.content
  failure : run'.failure = run.failure
  media : (∀ o ∈ run.stepResponses, o.halts = false) → run'.media = run.media

theorem Agrees.conclude (h : run.Agrees run') : (run.conclude none).Agrees (run'.conclude none) := by
  refine ⟨?_, ?_, ?_, fun ho => ?_⟩
  · unfold WorkflowRun.conclude
    dsimp only
    rw [h.status]
    split
    · rfl
    · exact h.status
  · unfold WorkflowRun.conclude
    dsimp only
    split <;> split <;> exact h.content
  · unfold WorkflowRun.conclude
    dsimp only
    split <;> split <;> exact h.failure
  · rw [media_conclude, media_conclude]
    exact h.media fun o hm => ho o (by rwa [stepResponses_conclude])

private theorem agrees_note (h : run.Unharmed run₀) (hsuccess : o'.success = o.success)
    (hcontent : o'.content = o.content)
    (hfailed : o.success = false → o'.stepName = o.stepName ∧ o'.error = o.error)
    (hmedia : o.halts = false → run.media ++ o'.media = run₀.media ++ o.media) :
    (run₀.note o).Agrees (run.note o') := by
  refine ⟨?_, ?_, ?_, fun ho => ?_⟩
  · rw [status_note, status_note, hsuccess, h.status]
  · unfold note
    dsimp only
    split <;> split <;> exact hcontent
  · cases hs : o.success with
    | true => rw [failure_note _ (hsuccess.trans hs), failure_note _ hs, h.failure]
    | false =>
      obtain ⟨hname, herror⟩ := hfailed hs
      simp [note, hsuccess, hs, hname, herror]
  · rw [media_note, media_note]
    exact hmedia (ho o (by simp))

/-- The output of a group makes of a run what the nodes in it would make of it. -/
theorem Made.agrees {group : String} {description : Option String} {nodes : List Node}
    (h : run.Made run' q) (hq : ∀ next, q ≠ .empty next)
    (hd : (Node.steps group description nodes).Dates (q.grouped group .steps) o) :
    run'.Agrees (run.note o) := by
  obtain ⟨durationMs, rfl⟩ := hd.exists_duration
  cases h with
  | empty input => exact absurd rfl (hq input)
  | completed h ho hm =>
    have hsuccess := StepOutput.success_of_halts ho
    exact agrees_note h rfl rfl (fun hf => by rw [hsuccess] at hf; cases hf) fun _ => hm.symm
  | halted h ho =>
    exact agrees_note h rfl rfl (fun _ => ⟨rfl, rfl⟩) fun hc => by rw [ho] at hc; cases hc

end WorkflowRun

variable {ctx : RunContext} {others : Engine → Engine → Prop} {nodes : List Node}

/-- The nodes of a run do the same as the nodes of a sequence. -/
theorem twins_runNodes (nodes : List Node) (input : StepInput) (run : WorkflowRun) :
    ctx.Twins run.Matched (Workflow.runNodes ctx nodes input run) (runSequence ctx nodes input).run := by
  induction nodes generalizing input run with
  | nil => exact .done (.made (.empty input))
  | cons n rest ih =>
    unfold Workflow.runNodes runSequence
    rw [RunTask.run_bind]
    refine (steady_execute n input).seq fun r => ?_
    cases r with
    | error fault => exact .done (.fault run fault)
    | ok output =>
      dsimp only
      cases ho : output.halts with
      | true => exact .done (.made (.halted ⟨rfl, rfl⟩ ho))
      | false =>
        simp only [Bool.false_eq_true, if_false]
        rw [RunTask.run_bind, ← bind_done (Workflow.runNodes ctx rest _ _)]
        refine (ih _ _).bind fun r r' hr => ?_
        cases hr with
        | fault run' fault => exact .done (.fault run' fault)
        | made h => exact .done (.made (h.after ho))

/-! ## What is told around a group -/

namespace Node

/-- What is told when a node starts, with the time. -/
def opening (n : Node) (input : StepInput) (ctx : RunContext) : Fiber Engine Nat :=
  (ctx.note (.entered n.name input)).bind fun _ =>
    (ctx.emit (.stepStarted n.name n.kind)).bind fun _ => Fiber.time

/-- What is told when a node that started at a time ends, with the output that it gives. -/
def closing (n : Node) (ctx : RunContext) (started : Nat) (output : StepOutput) :
    Fiber Engine StepOutput :=
  Fiber.time.bind fun ended =>
    let output :=
      if output.durationMs.isNone || !n.isLeaf && output.stepName == n.name then
        { output with durationMs := some (ended - started) }
      else output
    (ctx.note (.gave n.name output)).bind fun _ =>
      (ctx.emit (.stepCompleted n.name output.success output.content output.error)).bind fun _ =>
        .done output

theorem run_reported (n : Node) (input : StepInput) (ctx : RunContext) (work : RunTask StepOutput) :
    (n.reported input ctx work).run = ctx.isCancelled.bind fun cancelled =>
      if cancelled then .done (.error .cancelled)
      else (n.opening input ctx).bind fun started => work.run.bind fun r => match r with
        | .ok output => (n.closing ctx started output).bind fun output => .done (.ok output)
        | .error fault => .done (.error fault) := by
  unfold reported RunContext.checkCancelled
  rw [LawfulMonad.bind_assoc, RunTask.run_lift_bind]
  refine congrArg (Fiber.bind _) (funext fun cancelled => ?_)
  cases cancelled with
  | true => rfl
  | false =>
    simp only [Bool.false_eq_true, if_false, pure_bind, opening, RunTask.run_lift_bind,
      Fiber.bind_assoc]
    refine congrArg (Fiber.bind _) (funext fun _ => congrArg (Fiber.bind _) (funext fun _ =>
      congrArg (Fiber.bind _) (funext fun started => ?_)))
    rw [RunTask.run_bind]
    refine congrArg (Fiber.bind _) (funext fun r => ?_)
    cases r with
    | error fault => rfl
    | ok output =>
      simp only [closing, RunTask.run_lift_bind, Fiber.bind_assoc]
      rfl

theorem gives_closing (n : Node) (ctx : RunContext) (started : Nat) (output : StepOutput) :
    Fiber.Gives (n.closing ctx started output) (n.Dates output) :=
  .after_any fun ended => .after_any fun _ => .after_any fun _ =>
    .done (n.dates_ite output (ended - started))

/-- What is told around a node can be told among others who read it. -/
private theorem passes_opening (hu : Unaware ctx.runId ctx.feed others) (n : Node)
    (input : StepInput) : ctx.Passes others (n.opening input ctx) :=
  .bind (.update fun _ he => he.note_self rfl) fun _ => .bind (RunContext.passes_emit hu _) fun _ =>
    .update fun _ he => he

private theorem passes_closing (hu : Unaware ctx.runId ctx.feed others) (n : Node) (started : Nat)
    (output : StepOutput) : ctx.Passes others (n.closing ctx started output) :=
  .bind (.update fun _ he => he) fun _ => .bind (.update fun _ he => he.note_self rfl) fun _ =>
    .bind (RunContext.passes_emit hu _) fun _ => .done _

private theorem discreet_note (hf : ctx.feed = none) {a : Happening} (ha : a.isCall = false) :
    Discreet (Kin ctx.runId ctx.feed) (ctx.note a) :=
  .act (fun _ => (Kin.of_none hf).note_self ha) fun _ => .done _

/-- Without a feed it waits for nothing. -/
private theorem discreet_opening (hf : ctx.feed = none) (n : Node) (input : StepInput) :
    Discreet (Kin ctx.runId ctx.feed) (n.opening input ctx) :=
  .bind (discreet_note hf rfl) fun _ => .bind (RunContext.discreet_emit hf _) fun _ =>
    .act (fun _ => .of_none hf) fun _ => .done _

private theorem discreet_closing (hf : ctx.feed = none) (n : Node) (started : Nat)
    (output : StepOutput) : Discreet (Kin ctx.runId ctx.feed) (n.closing ctx started output) :=
  .bind (.act (fun _ => .of_none hf) fun _ => .done _) fun _ => .bind (discreet_note hf rfl) fun _ =>
    .bind (RunContext.discreet_emit hf _) fun _ => .done _

end Node

namespace Workflow

/-- The work of a run of one group. -/
theorem runNodes_group (ctx : RunContext) (group : String) (description : Option String)
    (nodes : List Node) (input : StepInput) (run : WorkflowRun) :
    runNodes ctx [.steps group description nodes] input run = ctx.isCancelled.bind fun cancelled =>
      if cancelled then .done (run, some .cancelled)
      else ((Node.steps group description nodes).opening input ctx).bind fun started =>
        (runSequence ctx nodes input).run.bind fun r => match r with
          | .ok q => ((Node.steps group description nodes).closing ctx started
              (q.grouped group .steps)).bind fun output => .done (run.note output, none)
          | .error fault => .done (run, some fault) := by
  have hperform : (perform input ctx (.steps group description nodes)).run =
      (runSequence ctx nodes input).run.bind fun r => match r with
        | .ok q => .done (.ok (q.grouped group .steps))
        | .error fault => .done (.error fault) := by
    unfold perform
    refine (RunTask.run_bind _ _).trans (congrArg (Fiber.bind _) (funext fun r => ?_))
    cases r <;> rfl
  unfold runNodes Node.execute
  refine (congrArg (Fiber.bind · _) (run_reported _ input ctx _)).trans ?_
  rw [Fiber.bind_assoc]
  refine congrArg (Fiber.bind _) (funext fun cancelled => ?_)
  cases cancelled with
  | true => rfl
  | false =>
    simp only [Bool.false_eq_true, if_false, Fiber.bind_assoc, hperform]
    refine congrArg (Fiber.bind _) (funext fun started => congrArg (Fiber.bind _) (funext fun r => ?_))
    cases r with
    | error fault => rfl
    | ok q =>
      refine (Fiber.bind_assoc _ _ _).trans (congrArg (Fiber.bind _) (funext fun output => ?_))
      simp only [Fiber.bind, runNodes]
      split <;> rfl

/-! ## Nodes at the top and nodes in a group -/

/-- A fiber that asks first whether its run was cancelled, and goes on when it was not. -/
private theorem evolves_of_isCancelled {α : Type} {k : Bool → Fiber Engine α} {a b : α} {e e' : Engine}
    (h : Evolves others (ctx.isCancelled.bind k) e (.done a) e') (hk : k true = .done b) (hb : b ≠ a) :
    ∃ t, ReflTransGen others e t ∧ t.isCancelled ctx.token = false ∧
      Evolves others (k false) t (.done a) e' := by
  rcases evolves_of_act h with ⟨hp, -⟩ | ⟨t, ho, hrest⟩
  · cases hp
  · refine ⟨t, ho, ?_⟩
    have hrest : Evolves others (k (t.isCancelled ctx.token)) t (.done a) e' := hrest
    cases hc : t.isCancelled ctx.token with
    | false => exact ⟨rfl, by rwa [hc] at hrest⟩
    | true =>
      rw [hc, hk] at hrest
      obtain ⟨hdone, -⟩ := evolves_of_done hrest
      cases hdone
      exact absurd rfl hb

private theorem evolves_isCancelled {α : Type} {k : Bool → Fiber Engine α} {q : Fiber Engine α}
    {e e' : Engine} (hc : e.isCancelled ctx.token = false) (h : Evolves others (k false) e q e') :
    Evolves others (ctx.isCancelled.bind k) e q e' := by
  have hm : Moves (ctx.isCancelled.bind k) e (k (e.isCancelled ctx.token)) e := .act
  rw [hc] at hm
  exact .head hm h

variable {input : StepInput} {run run₁ run₂ : WorkflowRun} {e e₁ e₂ : Engine}

/-- The first that nodes do is to ask whether their run was cancelled. -/
private theorem runNodes_asks (ctx : RunContext) (n : Node) (rest : List Node) (input : StepInput)
    (run : WorkflowRun) :
    ∃ k, runNodes ctx (n :: rest) input run = ctx.isCancelled.bind k ∧
      k true = .done (run, some .cancelled) := by
  unfold runNodes Node.execute
  exact ⟨_, (congrArg (Fiber.bind · _) (run_reported n input ctx _)).trans (Fiber.bind_assoc _ _ _),
    rfl⟩

/-- Nodes that come to their end without a fault begin before their run is cancelled. -/
private theorem not_cancelled_of_runNodes
    (hc : ∀ e e', others e e' → e.isCancelled ctx.token → e'.isCancelled ctx.token)
    (hne : nodes ≠ [])
    (h : Evolves others (runNodes ctx nodes input run) e (.done (run₁, none)) e₁) :
    e.isCancelled ctx.token = false := by
  obtain ⟨n, rest, rfl⟩ := List.exists_cons_of_ne_nil hne
  obtain ⟨k, hk, hcancelled⟩ := runNodes_asks ctx n rest input run
  rw [hk] at h
  obtain ⟨t, ho, ht, -⟩ := evolves_of_isCancelled h hcancelled (by simp)
  have hlasts : e.isCancelled ctx.token → t.isCancelled ctx.token := by
    clear ht
    induction ho with
    | refl => exact fun he => he
    | tail _ hx ih => exact fun he => hc _ _ hx (ih he)
  cases he : e.isCancelled ctx.token with
  | false => rfl
  | true => exact absurd (hlasts he) (by simp [ht])

/-- What nodes come to at the top they can come to in a group. -/
private theorem group_of_nodes (hu : Unaware ctx.runId ctx.feed others)
    (hc : ∀ e e', others e e' → e.isCancelled ctx.token → e'.isCancelled ctx.token)
    (hne : nodes ≠ []) (group : String) (description : Option String)
    (he : Kin ctx.runId ctx.feed e e)
    (h : Evolves others (runNodes ctx nodes input run) e (.done (run₁, none)) e₁) :
    ∃ run₂ e₂, Evolves others (runNodes ctx [.steps group description nodes] input run) e
      (.done (run₂, none)) e₂ ∧ run₁.Agrees run₂ ∧ Kin ctx.runId ctx.feed e₁ e₂ := by
  obtain ⟨started, t, hopening, hkin⟩ :=
    passes_opening hu (.steps group description nodes) input e he
  obtain ⟨r, t₁, hsequence, hmatched, hkin₁⟩ :=
    (twins_runNodes nodes input run).ends hu.follows hkin h
  cases hmatched with
  | @made _ q hmade =>
    obtain ⟨output, t₂, hclosing, hkin₂⟩ := passes_closing hu (.steps group description nodes) started
      (q.grouped group .steps) t₁ (hkin₁.symm.trans hkin₁)
    refine ⟨run.note output, t₂, ?_, ?_, hkin₁.trans hkin₂⟩
    · rw [runNodes_group]
      refine evolves_isCancelled (not_cancelled_of_runNodes hc hne h) ?_
      exact (hopening.bind _).trans ((hsequence.bind _).trans (hclosing.bind _))
    · refine hmade.agrees (fun next hq => ?_) ((gives_closing ..).of_evolves hclosing)
      exact (gives_runSequence_ne_empty hne input).of_evolves hsequence _ rfl next hq

/-- Without a feed, what nodes come to in a group they can come to at the top. -/
private theorem nodes_of_group (hu : Unaware ctx.runId ctx.feed others) (hf : ctx.feed = none)
    (hne : nodes ≠ []) {group : String} {description : Option String}
    (h : Evolves others (runNodes ctx [.steps group description nodes] input run) e
      (.done (run₂, none)) e₂) :
    ∃ run₁ e₁, Evolves others (runNodes ctx nodes input run) e (.done (run₁, none)) e₁ ∧
      run₁.Agrees run₂ ∧ Kin ctx.runId ctx.feed e₂ e₁ := by
  have hsymm (e e' : Engine) (h : Kin ctx.runId ctx.feed e e') : Kin ctx.runId ctx.feed e' e := h.symm
  have htrans (e e' e'' : Engine) (h : Kin ctx.runId ctx.feed e e')
      (h' : Kin ctx.runId ctx.feed e' e'') : Kin ctx.runId ctx.feed e e'' := h.trans h'
  rw [runNodes_group] at h
  obtain ⟨t, ho, -, h⟩ := evolves_of_isCancelled h rfl (by simp)
  obtain ⟨started, t₁, hopening, h⟩ := done_of_bind h
  obtain ⟨r, t₂, hsequence, h⟩ := done_of_bind h
  cases r with
  | error fault =>
    obtain ⟨hdone, -⟩ := evolves_of_done h
    cases hdone
  | ok q =>
    obtain ⟨s, hskip, hkin⟩ := (discreet_opening hf _ input).ends hu.follows hsymm htrans
      (Kin.of_none hf) hopening
    obtain ⟨r, s₁, hnodes, hmatched, hkin₁⟩ :=
      ((twins_runNodes nodes input run).symm hsymm).ends hu.follows hkin hsequence
    cases hmatched with
    | made hmade =>
      have hclosing : Discreet (Kin ctx.runId ctx.feed)
          (((Node.steps group description nodes).closing ctx started (q.grouped group .steps)).bind
            fun output => (.done (run.note output, none) :
              Fiber Engine (WorkflowRun × Option Fault))) :=
        (discreet_closing hf _ started _).bind fun _ => .done _
      obtain ⟨s₂, hskip', hkin₂⟩ := hclosing.ends hu.follows hsymm htrans hkin₁ h
      obtain ⟨output, t₃, houtput, h⟩ := done_of_bind h
      obtain ⟨hdone, -⟩ := evolves_of_done h
      cases hdone
      refine ⟨_, s₂, ((Evolves.refl.still (ho.trans hskip)).trans hnodes).still hskip', ?_, hkin₂⟩
      refine hmade.agrees (fun next hq => ?_) ((gives_closing ..).of_evolves houtput)
      exact (gives_runSequence_ne_empty hne input).of_evolves hsequence _ rfl next hq

/-! ## Whole runs -/

/-- The last that is told of a run is that it ended without a fault, with a record. -/
def Concludes (runId : String) (run : WorkflowRun) (e : Engine) : Prop :=
  ∃ final, (e.journal.of runId).getLast? = some (.ended none run final)

/-- A run begins among others, who act before its session is prepared and before it is recorded. -/
def Begins (w : Workflow) (others : Engine → Engine → Prop) (input : ExecutionInput) (runId : String)
    (token : Ref CancelToken) (feed : Option (Ref Feed)) (e : Engine) (ctx : RunContext)
    (run : WorkflowRun) (base : SessionState) (committed : Ref SessionState) (e₀ : Engine) : Prop :=
  ∃ sessionId t t₁ t₂, ReflTransGen others e t ∧
    w.prepareSession t = (.ok (sessionId, committed), t₁) ∧ ReflTransGen others t₁ t₂ ∧
    w.beginRun input runId token feed sessionId committed t₂ = ((ctx, run, base), e₀)

variable {w : Workflow} {input : ExecutionInput} {runId : String} {token : Ref CancelToken}
  {feed : Option (Ref Feed)} {run₀ : WorkflowRun} {base : SessionState} {committed : Ref SessionState}
  {e₀ f : Engine} {fault : Option Fault}

theorem evolves_executeRun (hv : w.validate = .ok ()) :
    Evolves others (w.executeRun input runId token feed) e (.done (.ok run)) f ↔
      ∃ ctx run₀ base committed e₀, w.Begins others input runId token feed e ctx run₀ base committed e₀ ∧
        Evolves others ((w.work input ctx run₀).bind (w.leave ctx committed base)) e₀
          (.done (.ok run)) f := by
  constructor
  · intro h
    rw [executeRun_valid hv] at h
    rcases evolves_of_act h with ⟨hp, -⟩ | ⟨t, ho, h⟩
    · cases hp
    rcases hprepare : w.prepareSession t with ⟨_ | ⟨sessionId, committed⟩, t₁⟩ <;> rw [hprepare] at h
    · obtain ⟨hdone, -⟩ := evolves_of_done h
      cases hdone
    rcases evolves_of_act h with ⟨hp, -⟩ | ⟨t₂, ho', h⟩
    · cases hp
    rcases hbegin : w.beginRun input runId token feed sessionId committed t₂ with
      ⟨⟨ctx, run₀, base⟩, e₀⟩
    rw [hbegin] at h
    exact ⟨ctx, run₀, base, committed, e₀, ⟨sessionId, t, t₁, t₂, ho, hprepare, ho', hbegin⟩, h⟩
  · rintro ⟨ctx, run₀, base, committed, e₀, ⟨sessionId, t, t₁, t₂, ho, hprepare, ho', hbegin⟩, h⟩
    have hprepared : Evolves others (w.executeRun input runId token feed) e
        (w.starting input runId token feed sessionId committed) t₁ :=
      (Evolves.refl.still ho).move (moves_of_prepareSession hv hprepare)
    exact ((hprepared.still ho').move (moves_of_beginRun hbegin)).trans h

private theorem journal_of_others (hc : ∀ e e', others e e' → Company runId token e e')
    {t : Engine} (ho : ReflTransGen others e t) : t.journal.of runId = e.journal.of runId := by
  induction ho with
  | refl => rfl
  | tail _ hx ih => exact (hc _ _ hx).journal.trans ih

theorem Begins.begun (hc : ∀ e e', others e e' → Company runId token e e')
    (h : w.Begins others input runId token feed e ctx run₀ base committed e₀) :
    w.Begun input runId token feed (e.journal.of runId) ctx run₀ base e₀ := by
  obtain ⟨sessionId, t, t₁, t₂, ho, hprepare, ho', hbegin⟩ := h
  refine begun_of_beginRun ?_ hbegin
  rw [journal_of_others hc ho', journal_prepareSession hprepare, journal_of_others hc ho]

/-- Where a run begins, its engine is kin to itself as before. -/
theorem Begins.kin (hu : Unaware runId feed others) (hk : Kin runId feed e e)
    (h : w.Begins others input runId token feed e ctx run₀ base committed e₀) :
    Kin runId feed e₀ e₀ := by
  have hothers {e t : Engine} (hk : Kin runId feed e e) (ho : ReflTransGen others e t) :
      Kin runId feed t t := by
    obtain ⟨t', -, hkin⟩ := follows_of_others hu.follows hk ho
    exact hkin.trans hkin.symm
  have hfeeds {e t : Engine} (hk : Kin runId feed e e) (hf : t.feeds = e.feeds) : Kin runId feed t t :=
    .self (hf ▸ hk.sound)
  obtain ⟨sessionId, t, t₁, t₂, ho, hprepare, ho', hbegin⟩ := h
  have hprepared : t₁.feeds = t.feeds := by
    rcases prepareSession_cases w t hprepare with ⟨-, -, rfl⟩ |
      ⟨-, ⟨_, _, _, -, -, rfl⟩ | ⟨_, _, _, -, -, rfl⟩⟩
    · rfl
    · rfl
    · rfl
  obtain ⟨stores, readings, now, hframe⟩ := beginRun_frame w t₂ input runId token feed sessionId committed
  rw [hframe] at hbegin
  cases hbegin
  exact hfeeds (hothers (hfeeds (hothers hk ho) hprepared) ho') rfl

/-- A run that has left concludes when no fault ended its work. -/
theorem Begins.concludes (hc : ∀ e e', others e e' → Company runId token e e')
    (h : w.Begins others input runId token feed e ctx run₀ base committed e₀)
    (hw : Evolves others (w.work input ctx run₀) e₀ (.done (run₁, fault)) e₁)
    (hl : Evolves others (w.leave ctx committed base (run₁, fault)) e₁ (.done (.ok run)) f) :
    run = run₁.conclude fault ∧ (Concludes runId run f ↔ fault = none) := by
  rcases evolves_of_act hl with ⟨hp, -⟩ | ⟨t, ho, hleaving⟩
  · cases hp
  have hleaving : Evolves others (leaving ctx (run₁.conclude fault))
      (w.endRun (run₁.conclude fault) fault ctx.state committed base t) (.done (.ok run)) f := hleaving
  have hrun : run = run₁.conclude fault := by
    rcases leaving_cases hleaving with hp | hp | ⟨q, event, -, hp⟩ <;> cases hp
    rfl
  obtain ⟨u, -, -, -, hjournal⟩ :=
    (h.begun hc).story_ended ((hw.still ho).mono hc) (hleaving.mono hc)
  refine ⟨hrun, ?_⟩
  unfold Concludes
  rw [hjournal, List.getLast?_concat, hrun]
  constructor
  · rintro ⟨final, hlast⟩
    cases hlast
    rfl
  · rintro rfl
    exact ⟨_, rfl⟩

/-- A completed run ended without a fault. -/
theorem concludes_of_completed (hv : w.validate = .ok ())
    (hc : ∀ e e', others e e' → Company runId token e e')
    (h : Evolves others (w.executeRun input runId token feed) e (.done (.ok run)) f)
    (hs : run.status = .completed) : Concludes runId run f := by
  obtain ⟨ctx, run₀, base, committed, e₀, hbegins, h⟩ := (evolves_executeRun hv).1 h
  obtain ⟨⟨run₁, fault⟩, e₂, hwork, hleave⟩ := done_of_bind h
  obtain ⟨rfl, hconcludes⟩ := hbegins.concludes hc hwork hleave
  exact hconcludes.2 (WorkflowRun.fault_of_completed hs)

/-- The end of a run is the same in kin engines for records of one status. -/
private theorem kin_endRun {run run' : WorkflowRun} (hs : run'.status = run.status)
    (hk : Kin ctx.runId ctx.feed e f) (fault fault' : Option Fault) :
    Kin ctx.runId ctx.feed (w.endRun run fault ctx.state committed base e)
      (w.endRun run' fault' ctx.state committed base f) := by
  obtain ⟨stores, readings, he⟩ := endRun_frame w e run fault ctx.state committed base
  obtain ⟨stores', readings', hf⟩ := endRun_frame w f run' fault' ctx.state committed base
  rw [he, hf]
  exact
    { hk with
      states := by simp only [hs, hk.states]
      calls := by rw [Journal.calls_cons rfl, Journal.calls_cons rfl, hk.calls] }

private theorem twins_leave (w : Workflow) (ctx : RunContext) (committed : Ref SessionState)
    (base : SessionState) (hs : (run₂.conclude none).status = (run₁.conclude none).status) :
    ctx.Twins (fun _ r => r = .ok (run₂.conclude none)) (w.leave ctx committed base (run₁, none))
      (w.leave ctx committed base (run₂, none)) :=
  .act (fun _ _ hk => kin_endRun hs hk _ _) fun _ _ _ =>
    (RunContext.twins_emitTerminal _ _).seq fun _ => .done rfl

/-- What the work of a run comes to in one workflow it can come to in another, up to a relation of records. -/
private def Retraces (w w' : Workflow) (others : Engine → Engine → Prop) (input : ExecutionInput)
    (runId : String) (token : Ref CancelToken) (feed : Option (Ref Feed))
    (A : WorkflowRun → WorkflowRun → Prop) : Prop :=
  ∀ ctx run e run₁ e₁, ctx.runId = runId → ctx.token = token → ctx.feed = feed → Kin runId feed e e →
    Evolves others (w.runPlan input ctx run) e (.done (run₁, none)) e₁ →
    ∃ run₂ e₂, Evolves others (w'.runPlan input ctx run) e (.done (run₂, none)) e₂ ∧ A run₁ run₂ ∧
      Kin runId feed e₁ e₂

/-- Then so can the whole run, in a workflow that differs in its plan alone. -/
private theorem Retraces.executeRun {plan : Plan} {A : WorkflowRun → WorkflowRun → Prop}
    (hplan : w.Retraces { w with plan } others input runId token feed A)
    (hv : w.validate = .ok ()) (hv' : { w with plan }.validate = .ok ())
    (hc : ∀ e e', others e e' → Company runId token e e') (hu : Unaware runId feed others)
    (hk : Kin runId feed e e)
    (hA : ∀ run₁ run₂, A run₁ run₂ → (run₂.conclude none).status = (run₁.conclude none).status)
    (h : Evolves others (w.executeRun input runId token feed) e (.done (.ok run)) f)
    (hf : Concludes runId run f) :
    ∃ run₁ run₂ f', run = run₁.conclude none ∧ A run₁ run₂ ∧
      Evolves others ({ w with plan }.executeRun input runId token feed) e
        (.done (.ok (run₂.conclude none))) f' ∧
      Concludes runId (run₂.conclude none) f' ∧ Kin runId feed f f' := by
  obtain ⟨ctx, run₀, base, committed, e₀, hbegins, h⟩ := (evolves_executeRun hv).1 h
  have hbegun := hbegins.begun hc
  obtain ⟨⟨run₁, fault⟩, e₂, hwork, hleave⟩ := done_of_bind h
  obtain ⟨hrun, hconcludes⟩ := hbegins.concludes hc hwork hleave
  obtain rfl := hconcludes.1 hf
  obtain ⟨_, e₁, hemit, hnodes⟩ := done_of_bind hwork
  obtain ⟨hid, htoken, hfeed⟩ := And.intro hbegun.contextId (And.intro hbegun.token hbegun.feed)
  subst hid hfeed
  have hkin : Kin ctx.runId ctx.feed e₁ e₁ := by
    obtain ⟨-, t, -, -, hkin⟩ :=
      (RunContext.steady_emit _).ends hu.follows (hbegins.kin hu hk) hemit
    exact hkin.trans hkin.symm
  obtain ⟨run₂, f₂, hnodes', hagree, hkin₂⟩ := hplan ctx run₀ e₁ run₁ e₂ rfl htoken rfl hkin hnodes
  obtain ⟨r, f', hleave', rfl, hkin'⟩ :=
    (twins_leave w ctx committed base (hA _ _ hagree)).ends hu.follows hkin₂ hleave
  have hwork' : Evolves others ({ w with plan }.work input ctx run₀) e₀ (.done (run₂, none)) f₂ :=
    (hemit.bind _).trans hnodes'
  refine ⟨run₁, run₂, f', hrun, hagree, ?_, ?_, hkin'⟩
  · exact (evolves_executeRun hv').2
      ⟨ctx, run₀, base, committed, e₀, hbegins, (hwork'.bind _).trans hleave'⟩
  · exact (Begins.concludes (w := { w with plan }) hc hbegins hwork' hleave').2.2 rfl

/-! ## The law -/

/-- The workflow that runs some nodes as its only group. -/
def inGroup (w : Workflow) (group : String) (description : Option String) (nodes : List Node) : Workflow :=
  { w with plan := .nodes [.steps group description nodes] }

/-- A group with a name of its own around the nodes of a valid workflow leaves it valid. -/
theorem validate_inGroup {group : String} (description : Option String) (hp : w.plan = .nodes nodes)
    (hv : w.validate = .ok ()) (hname : Text.trim group ≠ "") (hfresh : group ∉ names nodes) :
    (w.inGroup group description nodes).validate = .ok () := by
  have hwell : WellFormed nodes := validateNodes_iff.1 (validateNodes_of_validate hp hv).2
  have hbelow {m : Node} (hm : m ∈ descendants [steps group description nodes])
      (hne : m ≠ steps group description nodes) : m ∈ descendants nodes := by
    rw [descendants_singleton] at hm
    exact (List.mem_cons.1 hm).resolve_left hne
  have hgroup : WellFormed [steps group description nodes] := by
    refine ⟨fun n hn => ?_, ?_, ?_, ?_, ?_⟩
    · rw [descendants_singleton] at hn
      rcases List.mem_cons.1 hn with rfl | hn
      · exact hname
      · exact hwell.named n hn
    · rw [names_singleton]
      exact List.nodup_cons.2 ⟨hfresh, hwell.distinct⟩
    · exact fun _ _ _ _ _ hm => hwell.loops _ _ _ _ _ (hbelow hm (by simp))
    · exact fun _ _ _ hm => hwell.parallels _ _ _ (hbelow hm (by simp))
    · exact fun _ _ _ _ hm => hwell.routers _ _ _ _ (hbelow hm (by simp))
  unfold validate at hv ⊢
  have hblank : ¬ Text.isAllBlank w.name = true := fun h => by
    rw [if_pos h] at hv
    cases hv
  rw [inGroup, if_neg hblank]
  exact validateNodes_iff.2 hgroup

/-- Two runs that called the same and ended the same. Their media may differ when a node halted. -/
structure SameOutcome (w : Workflow) (runId : String) (run run' : WorkflowRun) (e e' : Engine) :
    Prop where
  calls : e'.journal.calls runId = e.journal.calls runId
  status : run'.status = run.status
  content : run'.content = run.content
  failure : run'.failure = run.failure
  session : w.sessionState e' = w.sessionState e
  states : e'.states = e.states
  media : (∀ o ∈ run.stepResponses, o.halts = false) → run'.media = run.media

private theorem sameOutcome {run' : WorkflowRun} {f' : Engine} (h : run.Agrees run')
    (hk : Kin runId feed f f') : w.SameOutcome runId run run' f f' where
  calls := hk.calls
  status := h.status
  content := h.content
  failure := h.failure
  session := by unfold sessionState session; rw [hk.slots, hk.states]
  states := hk.states
  media := h.media

/-- It makes no difference whether the nodes of a valid workflow stand at its top or in one group with a
name of its own. What a run without a fault comes to at the top, it can come to in the group, in the same
session and among the same others: it calls the same executors in the same order on the same inputs, has
the same status, content and failure, and leaves the same states of sessions; and it keeps the same media
when no node halted. The converse holds as well where no reader follows: a group tells two events more, and
a run may have to wait until there is room for them. -/
theorem grouping_transparent {group : String} (description : Option String)
    (hp : w.plan = .nodes nodes) (hv : w.validate = .ok ()) (hname : Text.trim group ≠ "")
    (hfresh : group ∉ names nodes) (hc : ∀ e e', others e e' → Company runId token e e')
    (hu : Unaware runId feed others)
    (hfeed : ∀ q, feed = some q → ∃ f, e.feeds.get? q = some f ∧ f.Sound) :
    (w.inGroup group description nodes).validate = .ok () ∧
    (∀ run f, Evolves others (w.executeRun input runId token feed) e (.done (.ok run)) f →
      Concludes runId run f →
      ∃ run' f', Evolves others ((w.inGroup group description nodes).executeRun input runId token feed) e
        (.done (.ok run')) f' ∧ Concludes runId run' f' ∧ w.SameOutcome runId run run' f f') ∧
    (feed = none → ∀ run' f',
      Evolves others ((w.inGroup group description nodes).executeRun input runId token feed) e
        (.done (.ok run')) f' → Concludes runId run' f' →
      ∃ run f, Evolves others (w.executeRun input runId token feed) e (.done (.ok run)) f ∧
        Concludes runId run f ∧ w.SameOutcome runId run run' f f') := by
  have hv' := validate_inGroup description hp hv hname hfresh
  have hne : nodes ≠ [] := (validateNodes_of_validate hp hv).1
  have hplan (ctx : RunContext) (run : WorkflowRun) :
      w.runPlan input ctx run = runNodes ctx nodes input.toStepInput run := by
    rw [runPlan, hp]
  have hforth : w.Retraces (w.inGroup group description nodes) others input runId token feed
      WorkflowRun.Agrees := by
    rintro ctx run e run₁ e₁ rfl rfl rfl hk h
    rw [hplan] at h
    exact group_of_nodes hu (fun e e' ho => (hc e e' ho).cancelled) hne group description hk h
  have hback (hnone : feed = none) : (w.inGroup group description nodes).Retraces w others input
      runId token feed fun run₂ run₁ => run₁.Agrees run₂ := by
    rintro ctx run e run₂ e₂ rfl rfl rfl - h
    obtain ⟨run₁, e₁, h', hagrees, hkin⟩ := nodes_of_group hu hnone hne h
    exact ⟨run₁, e₁, (hplan ctx run).symm ▸ h', hagrees, hkin⟩
  refine ⟨hv', fun run f h hf => ?_, fun hnone run' f' h hf => ?_⟩
  · obtain ⟨run₁, run₂, f', rfl, hagrees, h', hf', hkin⟩ := hforth.executeRun hv hv' hc hu
      (.self hfeed) (fun _ _ hagrees => hagrees.conclude.status) h hf
    exact ⟨_, f', h', hf', sameOutcome hagrees.conclude hkin⟩
  · obtain ⟨run₂, run₁, f, rfl, hagrees, h', hf', hkin⟩ := (hback hnone).executeRun hv' hv hc hu
      (.self hfeed) (fun _ _ hagrees => hagrees.conclude.status.symm) h hf
    exact ⟨_, f, h', hf', sameOutcome hagrees.conclude hkin.symm⟩

theorem company_idling {e e' : Engine} (h : Idling feed e e') : Company runId token e e' := by
  rcases h with ⟨ms, rfl⟩ | ⟨q, event, -, ht⟩
  · exact ⟨rfl, fun hc => hc⟩
  · unfold Engine.takeEvent? at ht
    split at ht
    · cases ht
    · cases ht
      exact ⟨rfl, fun hc => hc⟩

/-- Pays, and gets a picture of it. -/
private def errand : List Node :=
  [.step { name := "pay", executor := .stateWriter "pay" "paid" (.bool true) },
    .step
      { name := "receipt"
        executor := .ofFunction "receipt" fun _ =>
          .ok ((StepOutput.ofText "paid").withMedia (.ofUrl "receipt" .image "shop/receipt.png")) }]

private def shop : Workflow where
  id := "shop"
  name := "shop"
  plan := .nodes errand
  slot := ⟨0⟩

private def street : Engine :=
  { start := ⟨0, 0⟩
    states := ⟨[∅]⟩
    tokens := ⟨[{}]⟩
    feeds := ⟨[{ capacity := 64 }]⟩
    slots := ⟨[{ id := "session", state := ⟨0⟩ }]⟩ }

private theorem poll_shop : (match (shop.executeRun {} "run" ⟨0⟩ (some ⟨0⟩)).poll street with
    | .done (.ok run) e =>
      decide (run.status = .completed) && run.stepResponses.all (fun o => !o.halts) &&
      run.media.images.length == 1 && (e.journal.calls "run").length == 2 &&
      ((shop.sessionState e).get? "paid").isSome
    | _ => false) = true := by
  decide +kernel

/-- Followed by a reader, a purchase comes to the same in a group. -/
theorem grouping_transparent_errand :
    shop.validate = .ok () ∧ ∃ run e run' e',
      Evolves (Idling (some ⟨0⟩)) (shop.executeRun {} "run" ⟨0⟩ (some ⟨0⟩)) street (.done (.ok run)) e ∧
      Evolves (Idling (some ⟨0⟩)) ((shop.inGroup "purchase" none errand).executeRun {} "run" ⟨0⟩
        (some ⟨0⟩)) street (.done (.ok run')) e' ∧
      run'.status = .completed ∧ run'.media.images.length = 1 ∧
      e'.journal.calls "run" = e.journal.calls "run" ∧ (e.journal.calls "run").length = 2 ∧
      ((shop.sessionState e').get? "paid").isSome := by
  have hvalid : shop.validate = .ok () := by rfl
  have hname : Text.trim "purchase" ≠ "" := by decide
  have hfresh : "purchase" ∉ names errand := by decide
  have hfeed : ∀ q, some (⟨0⟩ : Ref Feed) = some q → ∃ f, street.feeds.get? q = some f ∧ f.Sound := by
    rintro q hq
    cases hq
    exact ⟨_, rfl, by decide, by decide⟩
  have hends := poll_shop
  refine ⟨hvalid, ?_⟩
  cases hpoll : (shop.executeRun {} "run" ⟨0⟩ (some ⟨0⟩)).poll street with
  | waiting p e | aborted message e =>
    rw [hpoll] at hends
    cases hends
  | done r e =>
    rw [hpoll] at hends
    cases r with
    | error fault => cases hends
    | ok run =>
      simp only [Bool.and_eq_true, decide_eq_true_eq, beq_iff_eq, List.all_eq_true,
        Bool.not_eq_true'] at hends
      obtain ⟨⟨⟨⟨hstatus, hcalm⟩, hmedia⟩, hcalls⟩, hpaid⟩ := hends
      have h : Evolves (Idling (some ⟨0⟩)) (shop.executeRun {} "run" ⟨0⟩ (some ⟨0⟩)) street
          (.done (.ok run)) e := evolves_of_poll_done hpoll
      have hc (e e' : Engine) (ho : Idling (some ⟨0⟩) e e') : Company "run" ⟨0⟩ e e' := company_idling ho
      obtain ⟨run', e', h', -, hsame⟩ := (grouping_transparent none rfl hvalid hname hfresh hc
        (unaware_idling "run" (some ⟨0⟩)) hfeed).2.1 run e h
        (concludes_of_completed hvalid hc h hstatus)
      refine ⟨run, e, run', e', h, h', hsame.status.trans hstatus, ?_, hsame.calls, hcalls, ?_⟩
      · rw [hsame.media hcalm, hmedia]
      · rw [hsame.session, hpaid]

end Workflow

end WorkflowEngine
