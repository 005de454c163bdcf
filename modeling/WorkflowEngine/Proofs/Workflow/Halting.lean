import WorkflowEngine.Executor.Ready
import WorkflowEngine.Proofs.Node.Halting
import WorkflowEngine.Proofs.Node.Validation
import WorkflowEngine.Proofs.Workflow.Outcomes
import WorkflowEngine.Proofs.Workflow.Stories

/-!
# Halting of runs

Main statement: after an output that halts a run of nodes starts nothing but what runs beside the
node that gave it; a run without a fault fails exactly when a step fails; and its last response is
the output of the step that halted it.
-/

namespace WorkflowEngine

open Node Fiber

/-- The order of a tour, and how it leaves its run: nothing halted, or the last response of the run
is the result of all that did. -/
inductive Decided (nodes : List Node) (t : List Happening) (run run' : WorkflowRun) : Prop
  | calm (hc : Calm t) (hs : run'.status = run.status)
  | halted {before : List StepOutput} {o : StepOutput} (hr : Result nodes t o) (ho : o.halts)
      (hlast : run'.stepResponses = before ++ [o])
      (hs : run'.status = if o.success then run.status else .error)

/-- A tour keeps the order of halting outputs. -/
theorem order_of_tour {nodes : List Node} {input : StepInput} {run : WorkflowRun}
    {t : List Happening} {r : Option Toured} (h : Tour nodes input run t r)
    (hn : (names nodes).Nodup) : Order nodes t := by
  have hvisit {n : Node} {rest : List Node} {input : StepInput} {t : List Happening}
      {q : Option (Except Fault (StepOutput × Course))} (hn : (names (n :: rest)).Nodup)
      (h : n.visit input t q) : Order (n :: rest) t :=
    (n.says_visit input ((Within.head hn).nodup hn) t q h).1.mono fun _ => (Within.head hn).mem
  induction h with
  | finished hr => exact .nil
  | under h | fault h | halted h ho => exact hvisit hn h
  | @next n rest input run t u o c r h ho hrest ih =>
    have hresult := (n.says_visit input ((Within.head hn).nodup hn) _ _ h).2 _ rfl
    exact (hvisit hn h).append (hresult.result.calm ho)
      ((ih ((Within.tail hn).nodup hn)).mono fun _ => (Within.tail hn).mem)

/-- A tour without a fault decides its run. -/
theorem decided_of_tour {nodes : List Node} {input : StepInput} {run run' : WorkflowRun}
    {t : List Happening} {r : Option Toured} {courses : List Course} (h : Tour nodes input run t r)
    (hn : (names nodes).Nodup) (hr : r = some ((run', none), courses)) :
    Decided nodes t run run' := by
  induction h generalizing courses with
  | finished ho =>
    cases ho _ hr
    exact .calm .nil rfl
  | under h => cases hr
  | fault h => cases hr
  | @halted n rest input run t o c h ho =>
    cases hr
    obtain ⟨ht, hv⟩ := n.says_visit input ((Within.head hn).nodup hn) _ _ h
    have hresult := (hv _ rfl).result.within (t := []) (.head hn) hn ht .nil (by simp)
    exact .halted hresult ho (run.stepResponses_note o) (run.status_note o)
  | @next n rest input run t u o c r h ho hrest ih =>
    obtain ⟨ht, hv⟩ := n.says_visit input ((Within.head hn).nodup hn) _ _ h
    have hc : Calm t := (hv _ rfl).result.calm ho
    have htail : Within rest (n :: rest) := .tail hn
    obtain ⟨⟨out, courses'⟩, rfl, hout⟩ := Option.map_eq_some_iff.1 hr
    cases hout
    have hstatus : (run.note o).status = run.status := by simp [StepOutput.success_of_halts ho]
    cases ih (htail.nodup hn) rfl with
    | calm hu hs => exact .calm (hc.append hu) (hs.trans hstatus)
    | halted hresult hp hlast hs =>
      refine .halted ?_ hp hlast (hstatus ▸ hs)
      have hrestOrder : Order rest u := order_of_tour hrest (htail.nodup hn)
      refine hresult.within htail hn hrestOrder hc fun a ha x hx hx' => ?_
      rw [names_cons] at hn
      exact (List.nodup_append.1 hn).2.2 x (ht.node a ha x hx) x hx' rfl

namespace Workflow

variable {w : Workflow} {nodes : List Node} {input : ExecutionInput} {runId : String}
  {t : List Happening}

theorem tour_of_account (hp : w.plan = .nodes nodes) {run : WorkflowRun}
    {r : Option (WorkflowRun × Option Fault)} (h : w.account input run t r) :
    ∃ q, Tour nodes input.toStepInput run t q ∧ r = q.map Prod.fst := by
  rwa [account, hp] at h

/-- A valid workflow has nodes, which are valid. -/
theorem validateNodes_of_validate (hp : w.plan = .nodes nodes) (hv : w.validate = .ok ()) :
    nodes ≠ [] ∧ validateNodes nodes = .ok () := by
  unfold validate at hv
  rw [hp] at hv
  split at hv
  · cases hv
  · cases nodes with
    | nil => cases hv
    | cons n rest => exact ⟨List.cons_ne_nil n rest, hv⟩

theorem nodup_of_validate (hp : w.plan = .nodes nodes) (hv : w.validate = .ok ()) :
    (names nodes).Nodup :=
  nodup_of_validateNodes (validateNodes_of_validate hp hv).2

/-- After an output that halts, what is told starts nothing but what runs beside. -/
theorem Told.permits (h : w.Told input runId t) (hp : w.plan = .nodes nodes)
    (hn : (names nodes).Nodup) : t.Pairwise (Permits nodes) := by
  have hbegan {base : SessionState} (a : Happening) : Permits nodes (.began base) a :=
    fun x o y hb => nomatch hb
  cases h with
  | nothing => exact .nil
  | under hrun ht hi =>
    obtain ⟨q, hq, -⟩ := tour_of_account hp ht
    exact List.pairwise_cons.2 ⟨fun a _ => hbegan a, (order_of_tour hq hn).after⟩
  | ended hrun ht hi =>
    obtain ⟨q, hq, -⟩ := tour_of_account hp ht
    refine List.pairwise_cons.2 ⟨fun a _ => hbegan a, List.pairwise_append.2
      ⟨(order_of_tour hq hn).after, List.pairwise_singleton _ _, fun a _ b hb x o y _ _ hy => ?_⟩⟩
    cases List.mem_singleton.1 hb
    cases hy

/-- A run whose end is told is over. -/
theorem Told.tour (h : w.Told input runId t) (hp : w.plan = .nodes nodes) {fault : Option Fault}
    {run : WorkflowRun} {final : SessionState} (he : .ended fault run final ∈ t) :
    ∃ base run₀ run' u courses, t = .began base :: (u ++ [.ended fault run final]) ∧
      Initial input runId run₀ ∧ run = run'.conclude fault ∧
      Tour nodes input.toStepInput run₀ u (some ((run', fault), courses)) := by
  cases h with
  | nothing => cases he
  | under hrun ht hi =>
    rcases List.mem_cons.1 he with he | he
    · cases he
    · cases hi _ he
  | @ended base _ run₀ run' u fault' hrun ht hi =>
    rcases List.mem_cons.1 he with he | he
    · cases he
    rcases List.mem_append.1 he with he | he
    · cases hi _ he
    cases List.mem_singleton.1 he
    obtain ⟨q, hq, hr⟩ := tour_of_account hp ht
    obtain ⟨⟨out, courses⟩, rfl, rfl⟩ := Option.map_eq_some_iff.1 hr.symm
    exact ⟨base, run₀, run', u, courses, rfl, hrun, rfl, hq⟩

/-- The status of a run that is decided: a step failed, or none did. -/
theorem status_of_decided {run run' : WorkflowRun} (h : Decided nodes t run run')
    (hs : run.status = .running) :
    (run'.conclude none).status = .completed ∧ (∀ x o, .gave x o ∈ t → o.success = true) ∨
    (run'.conclude none).status = .error ∧
      ∃ s o, step s ∈ descendants nodes ∧ .gave s.name o ∈ t ∧ o.success = false := by
  have hcompleted (h : run'.status = .running) : (run'.conclude none).status = .completed := by
    rw [run'.status_conclude_none (.inl h), if_pos h]
  cases h with
  | calm hc hrun => exact .inl ⟨hcompleted (hrun.trans hs), fun x o ho => hc.success ho⟩
  | @halted before last hr ho hlast hrun =>
    cases hsuccess : last.success with
    | true =>
      refine .inl ⟨hcompleted (by rw [hrun, if_pos hsuccess, hs]), fun x o hgiven => ?_⟩
      cases hf : o.success with
      | true => rfl
      | false =>
        rw [hr.fails x o hgiven hf] at hsuccess
        cases hsuccess
    | false =>
      have herror : run'.status = .error := by simp [hrun, hsuccess]
      exact .inr ⟨by simp [run'.status_conclude_none (.inr herror), herror], hr.cause hsuccess⟩

/-- The last response of a run that is decided. -/
theorem last_of_decided {run run' : WorkflowRun} (h : Decided nodes t run run') {s : Step}
    {o : StepOutput} (hs : step s ∈ descendants nodes) (ho : .gave s.name o ∈ t) (hh : o.halts)
    (hpar : ¬ InParallel nodes s.name) :
    ∃ last, run'.stepResponses.getLast? = some last ∧ Carries nodes t s.name o last := by
  cases h with
  | calm hc hrun =>
    rw [hc _ o ho] at hh
    cases hh
  | @halted before last hr _ hlast _ => exact ⟨last, by simp [hlast], hr.carries s o hs ho hh hpar⟩

/-- How a run without a fault ends. -/
structure Verdict (nodes : List Node) (t : List Happening) (run : WorkflowRun) : Prop where
  status : run.status = .error ∨ run.status = .completed
  failed : run.status = .error ↔
    ∃ s o, step s ∈ descendants nodes ∧ .gave s.name o ∈ t ∧ o.success = false
  last : ∀ s o, step s ∈ descendants nodes → .gave s.name o ∈ t → o.halts →
    ¬ InParallel nodes s.name →
    ∃ last, run.stepResponses.getLast? = some last ∧ Carries nodes t s.name o last

theorem Told.verdict (h : w.Told input runId t) (hp : w.plan = .nodes nodes)
    (hn : (names nodes).Nodup) {run : WorkflowRun} {final : SessionState}
    (he : .ended none run final ∈ t) : Verdict nodes t run := by
  obtain ⟨base, run₀, run', u, courses, rfl, hrun, rfl, htour⟩ := h.tour hp he
  have hdecided := decided_of_tour htour hn rfl
  have hgave {x : String} {o : StepOutput} : .gave x o ∈ u ↔
      .gave x o ∈ .began base :: (u ++ [.ended none (run'.conclude none) final]) := by
    simp
  have hcount (y : String) :
      (.began base :: (u ++ [.ended none (run'.conclude none) final])).countP (Happening.enters y) =
        u.countP (Happening.enters y) := by
    rw [List.countP_cons, List.countP_append]
    rfl
  have hlast (s : Step) (o : StepOutput) (hs : step s ∈ descendants nodes)
      (ho : .gave s.name o ∈ .began base :: (u ++ [.ended none (run'.conclude none) final]))
      (hh : o.halts) (hpar : ¬ InParallel nodes s.name) :
      ∃ last, (run'.conclude none).stepResponses.getLast? = some last ∧
        Carries nodes (.began base :: (u ++ [.ended none (run'.conclude none) final])) s.name o
          last := by
    obtain ⟨last, hlast, hc⟩ := last_of_decided hdecided hs (hgave.2 ho) hh hpar
    exact ⟨last, by simpa using hlast, hc.of_countP hcount⟩
  rcases status_of_decided hdecided hrun.status with ⟨hs, hsuccess⟩ | ⟨hs, s, o, hstep, ho, hf⟩
  · refine ⟨.inr hs, ⟨fun h => ?_, ?_⟩, hlast⟩
    · rw [hs] at h
      cases h
    · rintro ⟨s, o, -, ho, hf⟩
      rw [hsuccess _ o (hgave.2 ho)] at hf
      cases hf
  · exact ⟨.inl hs, ⟨fun _ => ⟨s, o, hstep, hgave.1 ho, hf⟩, fun _ => hs⟩, hlast⟩

/-- Halting reaches the top and decides the status, in every run of valid nodes. Once a step gives
an output that halts, nothing starts afterwards but what runs beside the step. A run that ends
without a fault fails exactly when a step failed, and is completed otherwise. If the step that
halted runs in no parallel node, the last response of the run is the output of the step, but for
the outermost loop over it. -/
theorem halting_decides (hp : w.plan = .nodes nodes) (hv : w.validate = .ok ())
    {token : Ref CancelToken} {feed : Option (Ref Feed)} {e e' : Engine}
    {p : Fiber Engine (Except Fault WorkflowRun)}
    (h : Evolves (Company runId token) (w.executeRun input runId token feed) e p e') :
    ∃ t, e'.journal.of runId = e.journal.of runId ++ t ∧
      (∀ run, p = .done (.ok run) → ∃ fault final, .ended fault run final ∈ t) ∧
      (∀ s o t₁ t₂, step s ∈ descendants nodes → t = t₁ ++ .gave s.name o :: t₂ → o.halts →
        ∀ a ∈ t₂, ∀ x, a.starts? = some x → Beside nodes s.name x) ∧
      ∀ run final, .ended none run final ∈ t → Verdict nodes t run := by
  obtain ⟨t, ht, htold, hdone⟩ := (stage_of_evolves h).told
  have hn := nodup_of_validate hp hv
  refine ⟨t, ht, hdone, ?_, fun run final he => htold.verdict hp hn he⟩
  rintro s o t₁ t₂ - rfl ho a ha x hx
  obtain ⟨-, hafter, -⟩ := List.pairwise_append.1 (htold.permits hp hn)
  exact (List.pairwise_cons.1 hafter).1 a ha s.name o x rfl ho hx

/-- Stops when there is something to build on. -/
private def climb : Step where
  name := "climb"
  executor := .ofFunction "climb" fun input =>
    .ok (if input.basis.isSome then (StepOutput.ofText "top").withStop else .ofText "half way")

/-- A climb within a loop, and a rest that is never taken. -/
private def climbing : Workflow where
  id := "climbing"
  name := "climbing"
  plan := .nodes [.loop "again" none 5 none [.steps "group" none [.step climb]],
    .step { climb with name := "rest" }]
  slot := ⟨0⟩

private def camp : Engine :=
  { start := ⟨0, 0⟩
    states := ⟨[∅]⟩
    tokens := ⟨[{}]⟩
    slots := ⟨[{ id := "session", state := ⟨0⟩ }]⟩ }

private theorem poll_climbing : (match (climbing.executeRun {} "run" ⟨0⟩ none).poll camp with
    | .done _ e =>
      (e.journal.of "run").any (fun a => match a with
        | .gave x o => x == "climb" && o.stop
        | _ => false) &&
      (e.journal.of "run").any (fun a => match a with
        | .ended none run _ => decide (run.status = .completed)
        | _ => false) &&
      (e.journal.of "run").countP (Happening.enters "group") == 2
    | _ => false) = true := by
  decide +kernel

/-- A step stops its loop in the second iteration, and the last response is its own output. -/
theorem halting_decides_climbing :
    ∃ nodes, climbing.plan = .nodes nodes ∧ climbing.validate = .ok () ∧ ∃ p e o run final,
      Evolves (Company "run" ⟨0⟩) (climbing.executeRun {} "run" ⟨0⟩ none) camp p e ∧
      .gave "climb" o ∈ e.journal.of "run" ∧ o.stop ∧
      .ended none run final ∈ e.journal.of "run" ∧ run.status = .completed ∧
      ∃ last, run.stepResponses.getLast? = some last ∧ last.bare = o.bare ∧
        last.loopTermination = some ⟨.interrupted, 2⟩ := by
  have hvalid : climbing.validate = .ok () := by rfl
  refine ⟨_, rfl, hvalid, ?_⟩
  have hends := poll_climbing
  cases hpoll : (climbing.executeRun {} "run" ⟨0⟩ none).poll camp with
  | waiting p e | aborted message e =>
    rw [hpoll] at hends
    cases hends
  | done r e =>
    rw [hpoll] at hends
    simp only [Bool.and_eq_true, List.any_eq_true, beq_iff_eq] at hends
    obtain ⟨⟨⟨a, ha, hgave⟩, b, hb, hended⟩, hcount⟩ := hends
    obtain ⟨o, rfl, hstop⟩ : ∃ o, a = .gave "climb" o ∧ o.stop := by
      split at hgave
      · simp only [Bool.and_eq_true, beq_iff_eq] at hgave
        exact ⟨_, by rw [hgave.1], hgave.2⟩
      · cases hgave
    obtain ⟨run, final, rfl, hstatus⟩ : ∃ run final, b = .ended none run final ∧
        run.status = .completed := by
      split at hended
      · exact ⟨_, _, rfl, of_decide_eq_true hended⟩
      · cases hended
    have h : Evolves (Company "run" ⟨0⟩) (climbing.executeRun {} "run" ⟨0⟩ none) camp (.done r) e :=
      evolves_of_poll_done hpoll
    obtain ⟨t, ht, -, -, hverdict⟩ := halting_decides rfl hvalid h
    obtain rfl : e.journal.of "run" = t := ht
    have hhalts : o.halts := by simp [StepOutput.halts, hstop]
    obtain ⟨last, hlast, hcarries⟩ := (hverdict run final hb).last climb o
      (by simp [descendants, inside]) ha hhalts (by
        rintro ⟨name, description, children, hp, -⟩
        simp [descendants, inside] at hp)
    refine ⟨.done r, e, o, run, final, h, ha, hstop, hb, hstatus, last, hlast, hcarries.same, ?_⟩
    rw [← hcount]
    exact hcarries.interrupted (n := .loop "again" none 5 none [.steps "group" none [.step climb]])
      (by simp [outerLoop?, descendants, inside, loopsOver, names, climb]; decide) rfl

end Workflow

end WorkflowEngine
