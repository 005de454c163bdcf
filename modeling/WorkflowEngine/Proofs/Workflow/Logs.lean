import WorkflowEngine.Executor.Ready
import WorkflowEngine.Proofs.Event.Followers
import WorkflowEngine.Proofs.Workflow.Chronicles
import WorkflowEngine.Proofs.Workflow.Halting

/-!
# Logs of runs

The event log of a run is its trace. Main statement: whoever followed a run that nobody cancelled has
its start, the event that ends it, and in between events that come to the tales of the nodes when they
are arranged. The reader of the feed and a subscriber of the bus have the same events, but for contents
of steps with a time limit that was over while they waited for room in the feed.
-/

namespace WorkflowEngine

open Telling Arrangement

/-- A log that begins with the start of a run and ends with its end, and in between comes to some
events when it is arranged. -/
def Frames (nodes : List Node) (started ended : WorkflowEvent) (events log : List WorkflowEvent) :
    Prop :=
  ∃ inner, log = started :: (inner ++ [ended]) ∧ arrange nodes inner = events ∧
    ∀ event ∈ inner, event.kind.isTerminal = false

theorem Telling.perm_happenings {t u : List Telling} (h : t.Perm u) :
    (happenings t).Perm (happenings u) := by
  induction h with
  | nil => exact .nil
  | cons a _ ih => cases a <;> simpa [happenings] using ih
  | swap a b t => cases a <;> cases b <;> first | exact .refl _ | exact .swap _ _ _
  | trans _ _ ih ih' => exact ih.trans ih'

namespace Workflow

variable {w : Workflow} {nodes : List Node} {input : ExecutionInput} {o : Outlet}

/-- What the nodes of a run tell up to its outcome, parallel children one after another. -/
def Traces (w : Workflow) (nodes : List Node) (input : ExecutionInput) (runId : String)
    (run : WorkflowRun) (fault : Option Fault) (t : List Telling) : Prop :=
  ∃ initial last, Initial input runId initial ∧ run = last.conclude fault ∧
    Chronicle .inTurn w.stepDefaults nodes input.toStepInput initial t (some (last, fault))

/-- The event log of a run is its trace. Whatever room its feed has and whenever its events are read, a
run that nobody cancelled has told, arranged, the tales of its nodes between its start and its end. -/
theorem log_of_followed (hp : w.plan = .nodes nodes) (hv : w.validate = .ok ())
    (hb : o.bus = w.bus) {name : String} {e e' : Engine} {capacity : Nat}
    (hf : e.feeds.get? o.feed = some { capacity })
    (hs : ∀ b, o.bus = some b → ∃ bus, e.buses.get? b = some bus ∧ bus.UpToDate name)
    {run : WorkflowRun} {read heard : List WorkflowEvent}
    (h : Followed o name (w.executeRun input o.runId o.token (some o.feed)) e (.done (.ok run)) e'
      read heard)
    (hc : e'.isCancelled o.token = false) :
    ∃ fault t base final story started ended lost,
      w.Traces nodes input o.runId run fault t ∧
      e'.journal.of o.runId =
        e.journal.of o.runId ++ .began base :: (story ++ [.ended fault run final]) ∧
      story.Perm (happenings t) ∧
      started.kind = .runStarted w.name ∧ run.ClosedBy ended.kind ∧
      Frames nodes started ended (deliveries t) (read ++ (e'.feeds.get o.feed).queue) ∧
      (∀ b, o.bus = some b → (e'.buses.get b).KeepsUp name →
        Frames nodes started ended (publications t)
          ((heard ++ (e'.buses.get b).unheard name).filter fun event => event.runId = o.runId)) ∧
      Interleave (deliveries t) lost (publications t) ∧
      ∀ event ∈ lost, ∃ step delta, Node.Limited w.stepDefaults nodes step ∧
        event.kind = .stepContentDelta step delta := by
  obtain ⟨log, hlogged, hlog⟩ := h.whole (tells_executeRun hp hb) (.begin hf hs) hc
  have hlogged := atEnd_some.1 hlogged run rfl
  cases hlogged with
  | @intro base final initial last fault u started ended hi hu hs he =>
    obtain ⟨t, ht, q, hq, hr⟩ := hu.regroup (.refl (nodup_of_validate hp hv))
    obtain ⟨lost, hlost, hdeltas⟩ := (hr.faithful (hq rfl)).missed
    have hframes (way : Way) : Frames nodes started ended (way.events t)
        (started :: (way.events u ++ [ended])) := by
      refine ⟨way.events u, rfl, hr.arranged way, fun event hevent => ?_⟩
      obtain ⟨a, ha, hae⟩ := Way.mem_events hevent
      exact (hr.inner a ha event hae).2
    refine ⟨fault, t, base, final, happenings u, started, ended, lost, ⟨initial, last, hi, rfl, ht⟩,
      ?_, perm_happenings hr.perm, hs, ?_, ?_, fun b hob hk => ?_, hlost, hdeltas⟩
    · rw [hlog.journal]
      simp [happenings]
    · rw [he]
      exact hu.closedBy hi.status
    · obtain ⟨_, queue, -, hget, hqueue⟩ := hlog.feed
      rw [Pool.get_of_get? hget, hqueue]
      simpa [deliveries, Way.events] using hframes .feed
    · obtain ⟨before, bus, sent, -, hget, hheard, hsent⟩ := hlog.bus b hob
      rw [Pool.get_of_get? hget] at hk ⊢
      rw [hheard.complete hk, hsent]
      simpa [publications, Way.events] using hframes .bus

/-- Reads one event after each turn of a run. -/
private def taking (o : Outlet) : Nat → Fiber Engine (Except Fault WorkflowRun) → Engine →
    List WorkflowEvent → Option (Except Fault WorkflowRun × Engine × List WorkflowEvent)
  | 0, _, _, _ => none
  | turns + 1, p, e, read =>
    match p.poll e with
    | .done r e => some (r, e, read)
    | .waiting p e => (e.takeEvent? o.feed).bind fun (event, e) =>
        taking o turns p e (read ++ [event])
    | .aborted _ _ => none

private theorem followed_taking {name : String} {p p' : Fiber Engine (Except Fault WorkflowRun)}
    {e e' e'' : Engine} {read heard log : List WorkflowEvent} {r : Except Fault WorkflowRun}
    {turns : Nat} (h : Followed o name p e p' e' read heard)
    (ht : taking o turns p' e' read = some (r, e'', log)) :
    Followed o name p e (.done r) e'' log heard := by
  induction turns generalizing p' e' read with
  | zero => cases ht
  | succ turns ih =>
    unfold taking at ht
    have harrives : Fiber.Arrives (fun _ _ => False) p' e' (p'.poll e') :=
      Fiber.arrives_poll p' e'
    split at ht
    · rename_i hp
      cases ht
      rw [hp] at harrives
      exact h.evolves harrives
    · rename_i q s hp
      rw [hp] at harrives
      obtain ⟨⟨event, s'⟩, htake, ht⟩ := Option.bind_eq_some_iff.1 ht
      exact ih ((h.evolves harrives).read htake) ht
    · cases ht

/-- Takes dictation, with no time for it. -/
private def dictating : Step where
  name := "say"
  executor := .streaming "voice" ["one", "two"]
  timeoutMs := some 0

private def dictation : Workflow where
  id := "dictation"
  name := "dictation"
  plan := .nodes [.step dictating]
  bus := some ⟨0⟩
  slot := ⟨0⟩

/-- A feed with room for one event, and a bus with a subscriber. -/
private def desk : Engine :=
  { start := ⟨0, 0⟩
    states := ⟨[∅]⟩
    tokens := ⟨[{}]⟩
    feeds := ⟨[{ capacity := 1 }]⟩
    buses := ⟨[(EventBus.new 8).subscribe "clerk"]⟩
    slots := ⟨[{ id := "session", state := ⟨0⟩ }]⟩ }

private def typing : Outlet := ⟨"run", ⟨0⟩, ⟨0⟩, some ⟨0⟩⟩

private theorem taking_dictation :
    (match taking typing 6 (dictation.executeRun (.ofMessage (.text "go")) "run" ⟨0⟩ (some ⟨0⟩))
        desk [] with
    | some (.ok _, e, read) => !e.isCancelled ⟨0⟩ &&
      (e.buses.get ⟨0⟩).subscribers.get? "clerk" == some 0 &&
      (e.buses.get ⟨0⟩).published - (e.buses.get ⟨0⟩).kept.length == 0 &&
      (read ++ (e.feeds.get ⟨0⟩).queue).length == 4 &&
      (((e.buses.get ⟨0⟩).unheard "clerk").filter fun event => event.runId = "run").length == 5
    | _ => false) = true := by
  decide +kernel

private theorem followed_dictation : ∃ run e read,
    Followed typing "clerk" (dictation.executeRun (.ofMessage (.text "go")) "run" ⟨0⟩ (some ⟨0⟩)) desk
      (.done (.ok run)) e read [] ∧
    e.isCancelled ⟨0⟩ = false ∧ (e.buses.get ⟨0⟩).KeepsUp "clerk" ∧
    (read ++ (e.feeds.get ⟨0⟩).queue).length = 4 ∧
    (((e.buses.get ⟨0⟩).unheard "clerk").filter fun event => event.runId = "run").length = 5 := by
  have hends := taking_dictation
  split at hends
  · rename_i run e read htaking
    simp only [Bool.and_eq_true, Bool.not_eq_true', beq_iff_eq] at hends
    obtain ⟨⟨⟨⟨hc, hposition⟩, hlag⟩, hread⟩, hheard⟩ := hends
    exact ⟨run, e, read, followed_taking .begin htaking, hc, ⟨0, hposition, Nat.le_of_eq hlag⟩, hread,
      hheard⟩
  · cases hends

/-- The subscriber of the bus has a content that the reader of the feed has not. -/
theorem content_missed_dictation : ∃ nodes, dictation.plan = .nodes nodes ∧
    dictation.validate = .ok () ∧ ∃ run e read,
    Followed typing "clerk" (dictation.executeRun (.ofMessage (.text "go")) "run" ⟨0⟩ (some ⟨0⟩)) desk
      (.done (.ok run)) e read [] ∧
    e.isCancelled ⟨0⟩ = false ∧ (e.buses.get ⟨0⟩).KeepsUp "clerk" ∧
    arrange nodes (read ++ (e.feeds.get ⟨0⟩).queue) ≠ arrange nodes
      (((e.buses.get ⟨0⟩).unheard "clerk").filter fun event => event.runId = "run") := by
  obtain ⟨run, e, read, h, hc, hk, hread, hheard⟩ := followed_dictation
  refine ⟨_, rfl, rfl, run, e, read, h, hc, hk, fun heq => ?_⟩
  have hlength := (perm_arrange _ _).length_eq.symm.trans
    ((congrArg List.length heq).trans (perm_arrange _ _).length_eq)
  rw [hread, hheard] at hlength
  cases hlength

/-- What the reader of the feed missed is a content of the step. -/
theorem log_of_followed_dictation : ∃ nodes, dictation.plan = .nodes nodes ∧
    dictation.validate = .ok () ∧ ∃ run e read,
    Followed typing "clerk" (dictation.executeRun (.ofMessage (.text "go")) "run" ⟨0⟩ (some ⟨0⟩)) desk
      (.done (.ok run)) e read [] ∧
    ∃ fault t started ended lost, dictation.Traces nodes (.ofMessage (.text "go")) "run" run fault t ∧
      Frames nodes started ended (deliveries t) (read ++ (e.feeds.get ⟨0⟩).queue) ∧
      Frames nodes started ended (publications t)
        (((e.buses.get ⟨0⟩).unheard "clerk").filter fun event => event.runId = "run") ∧
      Interleave (deliveries t) lost (publications t) ∧ lost.length = 1 ∧
      ∀ event ∈ lost, ∃ step delta, Node.Limited {} nodes step ∧
        event.kind = .stepContentDelta step delta := by
  have hvalid : dictation.validate = .ok () := by rfl
  obtain ⟨run, e, read, h, hc, hk, hread, hheard⟩ := followed_dictation
  have hclerk : ∀ b, typing.bus = some b →
      ∃ bus, desk.buses.get? b = some bus ∧ bus.UpToDate "clerk" := by
    rintro b hb
    obtain rfl := Option.some.inj hb
    exact ⟨_, rfl, by decide, by decide⟩
  obtain ⟨fault, t, -, -, -, started, ended, lost, ht, -, -, -, -, hfeed, hbus, hlost, hdeltas⟩ :=
    log_of_followed rfl hvalid (o := typing) rfl rfl
      hclerk h hc
  have hbus := hbus ⟨0⟩ rfl hk
  refine ⟨_, rfl, hvalid, run, e, read, h, fault, t, started, ended, lost, ht, hfeed, hbus, hlost, ?_,
    hdeltas⟩
  obtain ⟨inner, hlog, harranged, -⟩ := hfeed
  obtain ⟨inner', hlog', harranged', -⟩ := hbus
  have hdelivered := (congrArg List.length harranged).symm.trans (perm_arrange _ _).length_eq
  have hpublished := (congrArg List.length harranged').symm.trans (perm_arrange _ _).length_eq
  have hlengths := hlost.perm.length_eq
  have hread := (congrArg List.length hlog).symm.trans hread
  have hheard := (congrArg List.length hlog').symm.trans hheard
  simp only [List.length_cons, List.length_append, List.length_nil] at hread hheard hlengths
  omega

end Workflow

end WorkflowEngine
