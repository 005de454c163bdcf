import WorkflowEngine.Executor.Ready
import WorkflowEngine.Proofs.Node.Media
import WorkflowEngine.Proofs.Workflow.Halting

/-!
# Media of runs

Main statement: the media of a completed run, and those that a node of the workflow is given, are
the media of the input followed by those that the visits so far have kept. These are all media of
the steps so far exactly when what the visits dropped has none.
-/

namespace WorkflowEngine

open Node Fiber

/-- Media collected from an input and then from visits of some nodes. -/
structure Collected (nodes : List Node) (input : MediaSet) (t : List Happening) (m : MediaSet)
    (courses : List Course) : Prop where
  /-- The leaves of the visits are the outputs that the steps gave, each once. -/
  told : Course.UnfoldsInTurn courses (stepOutputs nodes t)
  once : (stepOutputs nodes t).Perm (Course.leavesOf courses)
  kept : m = input ++ .ofOutputs (Course.keptOf courses)
  whole : m = input ++ .ofOutputs (Course.leavesOf courses) ↔
    ∀ o ∈ Course.droppedOf courses, o.media.isEmpty = true

theorem Collected.of_kept {nodes : List Node} {input m : MediaSet} {t : List Happening}
    {courses : List Course} (ht : Course.UnfoldsInTurn courses (stepOutputs nodes t))
    (hm : m = input ++ .ofOutputs (Course.keptOf courses)) : Collected nodes input t m courses where
  told := ht
  once := ht.perm
  kept := hm
  whole := by rw [hm, MediaSet.append_right_inj, Course.ofOutputs_keptOf_eq_iff]

variable {whole : List Node} (hw : (names whole).Nodup)

include hw

/-- A tour adds to the media of its run what its visits keep. -/
theorem media_of_tour {nodes : List Node} {input : StepInput} {run run' : WorkflowRun}
    {t : List Happening} {r : Option Toured} {courses : List Course} (h : Tour nodes input run t r)
    (hn : (names nodes).Nodup) (hsub : ∀ m ∈ descendants nodes, m ∈ descendants whole)
    (hr : r = some ((run', none), courses)) :
    run'.media = run.media ++ .ofOutputs (Course.keptOf courses) ∧
      Course.UnfoldsInTurn courses (stepOutputs whole t) := by
  induction h generalizing courses with
  | finished ho =>
    cases ho _ hr
    exact ⟨(MediaSet.append_empty _).symm, rfl⟩
  | under h => cases hr
  | fault h => cases hr
  | @halted n rest input run t o c h ho =>
    cases hr
    have hhead : Within [n] (n :: rest) := .head hn
    obtain ⟨hmedia, htold⟩ := (yields_visit hw (hhead.nodup hn)
      (fun m hm => hsub m (hhead.mem hm)) input _ _ h).2 _ rfl
    refine ⟨?_, _, [], htold, rfl, (List.append_nil _).symm⟩
    rw [WorkflowRun.media_note, hmedia, Course.keptOf, Course.keptOf, List.append_nil]
  | @next n rest input run t u o c r h ho hrest ih =>
    have hhead : Within [n] (n :: rest) := .head hn
    have htail : Within rest (n :: rest) := .tail hn
    obtain ⟨hmedia, htold⟩ := (yields_visit hw (hhead.nodup hn)
      (fun m hm => hsub m (hhead.mem hm)) input _ _ h).2 _ rfl
    obtain ⟨⟨out, courses'⟩, rfl, hout⟩ := Option.map_eq_some_iff.1 hr
    cases hout
    obtain ⟨hrun, hu⟩ := ih (htail.nodup hn) (fun m hm => hsub m (htail.mem hm)) rfl
    refine ⟨?_, _, _, htold, hu, stepOutputs_append ..⟩
    have hkept : Course.keptOf (c :: courses') = c.kept ++ Course.keptOf courses' := rfl
    rw [hrun, WorkflowRun.media_note, hkept, MediaSet.ofOutputs_append, ← hmedia,
      MediaSet.append_assoc]

omit hw in
/-- A visit enters no other node of the workflow than its own. -/
private theorem entered_of_head {b n : Node} {l before rest : List Node} {input i : StepInput}
    {t : List Happening} {q : Option (Except Fault (StepOutput × Course))}
    (hn : (names (b :: l)).Nodup) (h : b.visit input t q) (hb : b :: l = before ++ n :: rest)
    (he : .entered n.name i ∈ t) :
    before = [] ∧ i = input ∧ ∃ u, t = .entered n.name i :: u := by
  have hhead : Within [b] (b :: l) := .head hn
  cases before with
  | nil =>
    cases hb
    obtain ⟨rfl, hu⟩ := entered_of_visit (hhead.nodup hn) h he
    exact ⟨rfl, rfl, hu⟩
  | cons b' before =>
    cases hb
    have hx : n.name ∈ names [b] := (says_visit b input (hhead.nodup hn) t q h).1.node _ he _ rfl
    have hy : n.name ∈ names (before ++ n :: rest) :=
      mem_names_of_mem (by simp) (name_mem_names n)
    rw [names_cons] at hn
    exact absurd rfl ((List.nodup_append.1 hn).2.2 _ hx _ hy)

/-- A node that is entered in a tour comes after a tour of the nodes before it, and is given what
these have kept. -/
theorem entered_of_tour {nodes before rest : List Node} {n : Node} {input i : StepInput}
    {run : WorkflowRun} {t : List Happening} {r : Option Toured} (h : Tour nodes input run t r)
    (hn : (names nodes).Nodup) (hsub : ∀ m ∈ descendants nodes, m ∈ descendants whole)
    (hb : nodes = before ++ n :: rest) (he : .entered n.name i ∈ t) :
    ∃ t₁ t₂ run' courses, t = t₁ ++ .entered n.name i :: t₂ ∧
      Tour before input run t₁ (some ((run', none), courses)) ∧
      i.media = input.media ++ .ofOutputs (Course.keptOf courses) := by
  have hfirst {input : StepInput} {run : WorkflowRun} :
      Tour [] input run [] (some ((run, none), [])) := .finished fun _ h => (Option.some.inj h).symm
  induction h generalizing before with
  | finished ho => cases he
  | under h | fault h | halted h ho =>
    obtain ⟨rfl, rfl, u, rfl⟩ := entered_of_head hn h hb he
    exact ⟨[], u, _, [], rfl, hfirst, (MediaSet.append_empty _).symm⟩
  | @next b l input run t u o c r h ho hrest ih =>
    have hhead : Within [b] (b :: l) := .head hn
    have htail : Within l (b :: l) := .tail hn
    rcases List.mem_append.1 he with he | he
    · obtain ⟨rfl, rfl, v, rfl⟩ := entered_of_head hn h hb he
      exact ⟨[], v ++ u, _, [], rfl, hfirst, (MediaSet.append_empty _).symm⟩
    · cases before with
      | nil =>
        cases hb
        have hx : n.name ∈ names rest := (order_of_tour hrest (htail.nodup hn)).node _ he _ rfl
        rw [names_cons] at hn
        exact absurd rfl ((List.nodup_append.1 hn).2.2 _ (name_mem_names n) _ hx)
      | cons b' before =>
        cases hb
        obtain ⟨t₁, t₂, run', courses, rfl, htour, hmedia⟩ :=
          ih (htail.nodup hn) (fun m hm => hsub m (htail.mem hm)) rfl he
        have hc := ((yields_visit hw (hhead.nodup hn) (fun m hm => hsub m (hhead.mem hm)) input
          _ _ h).2 _ rfl).media
        refine ⟨t ++ t₁, t₂, run', c :: courses, (List.append_assoc ..).symm, .next h ho htour, ?_⟩
        have hkept : Course.keptOf (c :: courses) = c.kept ++ Course.keptOf courses := rfl
        rw [hmedia, hkept, MediaSet.ofOutputs_append, ← hc, ← MediaSet.append_assoc]
        rfl

omit hw

namespace Workflow

variable {w : Workflow} {nodes : List Node} {input : ExecutionInput} {runId : String}
  {t : List Happening}

/-- What happens between the beginning and the end of a run happens in a tour. -/
theorem Told.inner (h : w.Told input runId t) (hp : w.plan = .nodes nodes) {a : Happening}
    (ha : a ∈ t) (hi : a.isInner) : ∃ base u after run r, t = .began base :: (u ++ after) ∧ a ∈ u ∧
      Tour nodes input.toStepInput run u r := by
  cases h with
  | nothing => cases ha
  | @under base run u r hrun ht _ =>
    obtain ⟨q, hq, -⟩ := tour_of_account hp ht
    rcases List.mem_cons.1 ha with rfl | ha
    · cases hi
    · exact ⟨base, u, [], run, q, by rw [List.append_nil], ha, hq⟩
  | @ended base final run run' u fault hrun ht _ =>
    obtain ⟨q, hq, -⟩ := tour_of_account hp ht
    rcases List.mem_cons.1 ha with rfl | ha
    · cases hi
    · rcases List.mem_append.1 ha with ha | ha
      · exact ⟨base, u, _, run, q, rfl, ha, hq⟩
      · obtain rfl := List.mem_singleton.1 ha
        cases hi

/-- The media of runs. A completed run has the media of its input and those that its visits kept, and
so has the input of every node of the workflow, with the visits of the nodes before it. These are
all media that the steps gave exactly when none of what the visits dropped has media. -/
theorem media_collected (hp : w.plan = .nodes nodes) (hv : w.validate = .ok ())
    {token : Ref CancelToken} {feed : Option (Ref Feed)} {e e' : Engine}
    {p : Fiber Engine (Except Fault WorkflowRun)}
    (h : Evolves (Company runId token) (w.executeRun input runId token feed) e p e') :
    ∃ t, e'.journal.of runId = e.journal.of runId ++ t ∧
      (∀ run, p = .done (.ok run) → ∃ fault final, .ended fault run final ∈ t) ∧
      (∀ fault run final, .ended fault run final ∈ t → run.status = .completed →
        ∃ base u first last courses, t = .began base :: (u ++ [.ended none run final]) ∧
          Tour nodes input.toStepInput first u (some ((last, none), courses)) ∧
          Collected nodes input.media u run.media courses) ∧
      ∀ before n rest i, nodes = before ++ n :: rest → .entered n.name i ∈ t →
        ∃ base u after first last courses,
          t = .began base :: (u ++ .entered n.name i :: after) ∧
          Tour before input.toStepInput first u (some ((last, none), courses)) ∧
          Collected nodes input.media u i.media courses := by
  obtain ⟨t, ht, htold, hdone⟩ := (stage_of_evolves h).told
  have hn := nodup_of_validate hp hv
  refine ⟨t, ht, hdone, fun fault run final he hs => ?_, ?_⟩
  · obtain ⟨base, first, last, u, courses, rfl, hfirst, rfl, htour⟩ := htold.tour hp he
    obtain rfl := WorkflowRun.fault_of_completed hs
    obtain ⟨hmedia, hu⟩ := media_of_tour hn htour hn (fun _ hm => hm) rfl
    refine ⟨base, u, first, last, courses, rfl, htour, .of_kept hu ?_⟩
    rw [WorkflowRun.media_conclude, hmedia, hfirst.media]
  · rintro before n rest i rfl he
    obtain ⟨base, u, after, first, r, rfl, hu, htour⟩ := htold.inner hp he rfl
    obtain ⟨t₁, t₂, last, courses, rfl, hbefore, hmedia⟩ :=
      entered_of_tour hn htour hn (fun _ hm => hm) rfl hu
    refine ⟨base, t₁, t₂ ++ after, first, last, courses, by simp, hbefore, .of_kept ?_ hmedia⟩
    have hsub : ∀ m ∈ descendants before, m ∈ descendants (before ++ n :: rest) := fun m hm => by
      rw [descendants_append]
      exact List.mem_append_left _ hm
    have hnodup : (names before).Nodup := by
      rw [names, descendants_append, List.map_append] at hn
      exact (List.nodup_append.1 hn).1
    exact (media_of_tour hn hbefore hnodup hsub rfl).2

/-- Takes a picture. -/
private def shoot : Step where
  name := "shot"
  executor := .ofFunction "camera" fun _ =>
    .ok ((StepOutput.ofText "shot").withMedia { id := "m", kind := .image })

/-- Two pictures in a loop. -/
private def filming : Workflow where
  id := "filming"
  name := "filming"
  plan := .nodes [.loop "scene" none 2 none [.step shoot]]
  slot := ⟨0⟩

private def studio : Engine :=
  { start := ⟨0, 0⟩
    states := ⟨[∅]⟩
    tokens := ⟨[{}]⟩
    slots := ⟨[{ id := "session", state := ⟨0⟩ }]⟩ }

private def script : ExecutionInput where
  message := some (.text "hello")
  media := { images := [{ id := "in", kind := .image }] }

private theorem poll_filming :
    (match (filming.executeRun script "run" ⟨0⟩ none).poll studio with
    | .done (.ok run) e => decide (run.status = .completed) &&
      decide (run.media ≠ script.media ++ .ofOutputs
        (stepOutputs [.loop "scene" none 2 none [.step shoot]] (e.journal.of "run"))) &&
      run.media.size == 2 &&
      (MediaSet.ofOutputs
        (stepOutputs [.loop "scene" none 2 none [.step shoot]] (e.journal.of "run"))).size == 2
    | _ => false) = true := by
  decide +kernel

private theorem evolves_filming : ∃ run e,
    Evolves (Company "run" ⟨0⟩) (filming.executeRun script "run" ⟨0⟩ none) studio
      (.done (.ok run)) e ∧
    ((run.status = .completed ∧ run.media ≠ script.media ++ .ofOutputs
      (stepOutputs [.loop "scene" none 2 none [.step shoot]] (e.journal.of "run"))) ∧
    run.media.size = 2) ∧ (MediaSet.ofOutputs
      (stepOutputs [.loop "scene" none 2 none [.step shoot]] (e.journal.of "run"))).size = 2 := by
  have hends := poll_filming
  cases hpoll : (filming.executeRun script "run" ⟨0⟩ none).poll studio with
  | waiting p e | aborted message e =>
    rw [hpoll] at hends
    cases hends
  | done r e =>
    rw [hpoll] at hends
    cases r with
    | error fault => cases hends
    | ok run =>
      simp only [Bool.and_eq_true, decide_eq_true_eq, beq_iff_eq] at hends
      exact ⟨run, e, evolves_of_poll_done hpoll, hends⟩

/-- A loop drops the media of all but its last visit. -/
theorem media_lost_filming : ∃ nodes, filming.plan = .nodes nodes ∧ filming.validate = .ok () ∧
    ∃ run e, Evolves (Company "run" ⟨0⟩) (filming.executeRun script "run" ⟨0⟩ none) studio
        (.done (.ok run)) e ∧
      run.status = .completed ∧
      run.media ≠ script.media ++ .ofOutputs (stepOutputs nodes (e.journal.of "run")) := by
  obtain ⟨run, e, h, ⟨⟨hs, hne⟩, -⟩, -⟩ := evolves_filming
  exact ⟨_, rfl, rfl, run, e, h, hs, hne⟩

/-- What the loop dropped has media. -/
theorem media_collected_filming : ∃ nodes, filming.plan = .nodes nodes ∧
    filming.validate = .ok () ∧
    ∃ run e, Evolves (Company "run" ⟨0⟩) (filming.executeRun script "run" ⟨0⟩ none) studio
        (.done (.ok run)) e ∧
      run.status = .completed ∧ ∃ t courses, Collected nodes script.media t run.media courses ∧
        ∃ o ∈ Course.droppedOf courses, o.media.isEmpty = false := by
  have hvalid : filming.validate = .ok () := by rfl
  obtain ⟨run, e, h, ⟨⟨hs, -⟩, hsize⟩, hall⟩ := evolves_filming
  obtain ⟨t, ht, hdone, hended, -⟩ := media_collected rfl hvalid h
  obtain ⟨fault, final, he⟩ := hdone run rfl
  obtain ⟨base, u, first, last, courses, rfl, -, hcollected⟩ := hended fault run final he hs
  refine ⟨_, rfl, hvalid, run, e, h, hs, u, courses, hcollected, ?_⟩
  by_contra hnone
  have hempty (o : StepOutput) (ho : o ∈ Course.droppedOf courses) : o.media.isEmpty = true := by
    by_contra hne
    exact hnone ⟨o, ho, by simpa using hne⟩
  have hwhole := hcollected.whole.2 hempty
  have hjournal : stepOutputs [.loop "scene" none 2 none [.step shoot]] (e.journal.of "run") =
      stepOutputs [.loop "scene" none 2 none [.step shoot]] u := by
    have hbefore : studio.journal.of "run" = [] := rfl
    rw [ht, hbefore]
    simp [stepOutputs]
  rw [hjournal, MediaSet.size_of_perm hcollected.once] at hall
  rw [hwhole, MediaSet.size_append, hall] at hsize
  cases hsize

end Workflow

end WorkflowEngine
