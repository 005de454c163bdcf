import WorkflowEngine.Proofs.Workflow.Responses

/-!
# Metrics of runs

Where the outputs of parallel children stand in the metrics of a run, at every depth. Main statement: the
metrics of a parallel node hold those of all its children and no payload of their own, and other metrics
hold those of children only when a loop relabelled the output of a parallel node.
-/

namespace WorkflowEngine

open Node Fiber

/-! ## Plain executors -/

/-- A script all of whose ends are of a kind. -/
def Script.Ends {ε α : Type} (V : α → Prop) : Script ε α → Prop
  | finish a => V a
  | fail _ | abort _ => True
  | look next => ∀ state, (next state).Ends V
  | change _ next | sleep _ next | cancel next | emit _ next => next.Ends V
  | cancelled next => ∀ b, (next b).Ends V
  | count _ next => ∀ calls, (next calls).Ends V

/-- An executor that is of no parallel kind and gives no outputs of children, called or streamed. -/
structure Executor.Plain (x : Executor) : Prop where
  kind : x.kind ≠ .parallel
  call : ∀ input ctx, (x.call input ctx).Ends fun o => o.children = none
  stream : ∀ input ctx, (x.stream input ctx).Ends fun r => ∀ o, r = some o → o.children = none

/-- Trees of plain executors. -/
def Node.Plain (nodes : List Node) : Prop := ∀ s, .step s ∈ descendants nodes → s.executor.Plain

/-- A function of the input is plain when no output of it holds outputs of children. -/
theorem Executor.plain_ofFunction {name : String} {f : StepInput → Except Fault StepOutput}
    (h : ∀ input o, f input = .ok o → o.children = none) : (ofFunction name f).Plain := by
  refine ⟨nofun, fun input ctx => ?_, fun input ctx => ?_⟩
  · unfold ofFunction
    dsimp only
    split
    · rename_i o ho
      exact h input o ho
    · trivial
  · unfold ofFunction
    dsimp only
    split
    · rename_i o ho
      rintro _ ⟨⟩
      exact h input o ho
    · trivial

theorem Script.gives_run {ε α : Type} {V : α → Prop} {ctx : RunContext} {send : ε → Fiber Engine Unit}
    {script : Script ε α} (h : script.Ends V) :
    Fiber.Gives (script.run ctx send) fun r => ∀ a, r = .ok a → V a := by
  induction script with
  | finish a => exact .done fun _ ha => Except.ok.inj ha ▸ h
  | fail fault => exact .done fun _ ha => nomatch ha
  | look next ih => exact .act fun state => ih state (h state)
  | change f next ih | cancel next ih => exact .act fun _ => ih h
  | sleep ms next ih => exact .after_any fun _ => ih h
  | emit event next ih => exact .after_any fun _ => ih h
  | cancelled next ih => exact .act fun b => ih b (h b)
  | count tally next ih => exact .act fun n => ih n (h n)
  | abort message => exact .abort message

/-- What a step with a plain executor gives. -/
def Step.PlainOutput (_ : Step) (o : StepOutput) : Prop :=
  o.children = none ∧ o.executorKind ≠ .parallel

theorem Step.gives_plain {s : Step} (h : s.executor.Plain) (ctx : RunContext) (input : StepInput) :
    (s.execute input ctx).Gives s.PlainOutput := by
  have hinvoke : (s.invoke input ctx).Gives fun o => o.children = none := by
    unfold invoke
    refine .after_any fun _ => ?_
    split
    · refine .bind (Script.gives_run (h.stream _ _)) fun r hr => ?_
      cases r with
      | some o => exact .pure (hr o rfl)
      | none => exact .throw _
    · exact Script.gives_run (h.call _ _)
  refine gives_execute hinvoke (fun o ms ho => ⟨ho, h.kind⟩) fun message ms => ⟨?_, h.kind⟩
  unfold afterFailure stamp
  dsimp only
  split <;> rfl

/-! ## Outputs of parallel nodes -/

namespace Node

/-- A node whose work may end with that of a parallel node, without being halted. -/
inductive EndsParallel : Node → Prop
  | parallel {name : String} {description : Option String} {children : List Node} :
      EndsParallel (.parallel name description children)
  | group {n c : Node} (hn : n.isGroup) (hc : n.children.getLast? = some c) (h : EndsParallel c) :
      EndsParallel n
  | loop {name : String} {description : Option String} {maxIterations : Nat}
      {ends : Option (List StepOutput → Except String Bool)} {children : List Node} {c : Node}
      (hc : children.getLast? = some c) (h : EndsParallel c) :
      EndsParallel (.loop name description maxIterations ends children)
  | choice {name : String} {description : Option String} {select : StepInput → Except String String}
      {choices : List Node} {c : Node} (hc : c ∈ choices) (h : EndsParallel c) :
      EndsParallel (.router name description select choices)

/-- A loop of a name whose iterations may end with the work of a parallel node. -/
def LoopsOverParallel (nodes : List Node) (x : String) : Prop :=
  ∃ description maxIterations ends children c,
    .loop x description maxIterations ends children ∈ descendants nodes ∧
      children.getLast? = some c ∧ EndsParallel c

/-- The keys of outputs of children are the names of the children of a parallel node. -/
def KeyedByParallel (nodes : List Node) (keys : List String) : Prop :=
  ∃ name description children, .parallel name description children ∈ descendants nodes ∧
    keys.Perm (children.map Node.name)

/-- How an output of a tree holds outputs of children. -/
structure Holds (n : Node) (o : StepOutput) : Prop where
  parallel : o.executorKind = .parallel → o.children.isSome
  kind : o.children.isSome →
    o.executorKind = .parallel ∨ o.executorKind = .loop ∧ LoopsOverParallel [n] o.executorName
  keyed : ∀ c, o.children = some c → KeyedByParallel [n] c.keys
  ends : o.children.isSome → o.halts = false → EndsParallel n

variable {n c : Node} {o : StepOutput}

theorem LoopsOverParallel.mono {part whole : List Node} {x : String} (h : LoopsOverParallel part x)
    (hd : ∀ m ∈ descendants part, m ∈ descendants whole) : LoopsOverParallel whole x := by
  obtain ⟨description, maxIterations, ends, children, c, hm, hc⟩ := h
  exact ⟨description, maxIterations, ends, children, c, hd _ hm, hc⟩

theorem KeyedByParallel.mono {part whole : List Node} {keys : List String}
    (h : KeyedByParallel part keys) (hd : ∀ m ∈ descendants part, m ∈ descendants whole) :
    KeyedByParallel whole keys := by
  obtain ⟨name, description, children, hm, hkeys⟩ := h
  exact ⟨name, description, children, hd _ hm, hkeys⟩

/-- An output that is adopted from a child, under the same kind and with the same children. -/
theorem Holds.adopt {o' : StepOutput} (h : Holds c o) (hc : c ∈ n.children)
    (hkind : o'.executorKind = o.executorKind) (hname : o'.executorName = o.executorName)
    (hchildren : o'.children = o.children)
    (hends : o.children.isSome → o'.halts = false → EndsParallel n) : Holds n o' := by
  have hd (m : Node) (hm : m ∈ descendants [c]) : m ∈ descendants [n] :=
    mem_descendants_children (mem_descendants_of_mem hc hm)
  refine ⟨?_, ?_, ?_, hchildren ▸ hends⟩
  · rw [hkind, hchildren]
    exact h.parallel
  · rw [hkind, hname, hchildren]
    exact fun ho => (h.kind ho).imp id fun hl => ⟨hl.1, hl.2.mono hd⟩
  · rw [hchildren]
    exact fun k hk => (h.keyed k hk).mono hd

/-- Outputs of children are held by what a parallel node gave, and by what a loop made of it. -/
theorem holds_of_arises (hn : (names [n]).Nodup) (h : Arises Step.PlainOutput n o) : Holds n o := by
  have hnodup {n c : Node} (hn : (names [n]).Nodup) (hc : c ∈ n.children) : (names [c]).Nodup :=
    nodup_of_mem (mem_descendants_of_mem hc (mem_descendants_self c)) (nodup_children hn)
  induction h with
  | step h =>
    obtain ⟨hnone, hkind⟩ := h
    exact ⟨fun h => absurd h hkind, by simp [hnone], by simp [hnone], by simp [hnone]⟩
  | dated _ _ ih =>
    obtain ⟨hparallel, hkind, hkeyed, hends⟩ := ih hn
    exact ⟨hparallel, hkind, hkeyed, hends⟩
  | halted _ hc _ ho ih =>
    exact (ih (hnodup hn hc)).adopt hc rfl rfl rfl fun _ hh => by cases ho.symm.trans hh
  | completed hgroup hc _ ho _ ih =>
    have hmem := List.mem_of_getLast? hc
    have hchild := ih (hnodup hn hmem)
    exact hchild.adopt hmem rfl rfl rfl fun hs _ => .group hgroup hc (hchild.ends hs ho)
  | @passed n hgroup input =>
    have hkind : n.kind ≠ .parallel := by cases n <;> simp [isGroup, kind] at hgroup ⊢
    exact ⟨fun h => absurd h hkind, fun h => (by cases h), fun _ h => (by cases h), fun h => by cases h⟩
  | interrupted hc _ ho _ ih =>
    exact (ih (hnodup hn hc)).adopt hc rfl rfl rfl fun _ hh => by cases ho.symm.trans hh
  | finished hc _ ho _ hs ih =>
    have hmem := List.mem_of_getLast? hc
    have hchild := ih (hnodup hn hmem)
    have hlast (hsome : _) : EndsParallel _ := hchild.ends hsome ho
    rw [Loop.finish, if_neg hs]
    refine ⟨fun h => (by cases h), fun hsome => .inr ⟨rfl, ?_⟩, fun k hk => ?_, fun hsome _ => ?_⟩
    · exact ⟨_, _, _, _, _, mem_descendants_self _, hc, hlast hsome⟩
    · exact (hchild.keyed k hk).mono fun m hm =>
        mem_descendants_children (mem_descendants_of_mem hmem hm)
    · exact .loop hc (hlast hsome)
  | idled _ _ hs =>
    rw [Loop.finish, if_neg hs]
    exact ⟨fun h => (by cases h), fun h => (by cases h), fun _ h => (by cases h), fun h => by cases h⟩
  | @joined name description children os hlen _ _ =>
    refine ⟨fun _ => rfl, fun _ => .inl rfl, ?_, fun _ _ => .parallel⟩
    rintro c ⟨⟩
    refine ⟨name, description, children, mem_descendants_self _, ?_⟩
    exact Join.perm_keys_outputs (nodup_map_name (nodup_children hn)) (by simpa using hlen)
  | chosen hc _ ih =>
    have hchild := ih (hnodup hn hc)
    exact hchild.adopt hc rfl rfl rfl fun hs hh => .choice hc (hchild.ends hs hh)

/-- What an output holds for the children arises for nodes of the tree. -/
theorem arises_of_child (h : Arises Step.PlainOutput n o) {children : KeyMap StepOutput}
    (hc : o.children = some children) {o' : StepOutput} (ho : o' ∈ children.values) :
    ∃ m ∈ descendants [n], Arises Step.PlainOutput m o' := by
  have hup {n c : Node} (hc : c ∈ n.children)
      (h : ∃ m ∈ descendants [c], Arises Step.PlainOutput m o') :
      ∃ m ∈ descendants [n], Arises Step.PlainOutput m o' := by
    obtain ⟨m, hm, harises⟩ := h
    exact ⟨m, mem_descendants_children (mem_descendants_of_mem hc hm), harises⟩
  induction h with
  | step h =>
    rw [h.1] at hc
    cases hc
  | dated _ _ ih => exact ih hc
  | halted _ hmem _ _ ih => exact hup hmem (ih hc)
  | completed _ hlast _ _ _ ih => exact hup (List.mem_of_getLast? hlast) (ih hc)
  | passed => cases hc
  | interrupted hmem _ _ _ ih => exact hup (n := .loop ..) hmem (ih hc)
  | finished hlast _ _ _ hs ih =>
    rw [Loop.finish, if_neg hs] at hc
    exact hup (n := .loop ..) (List.mem_of_getLast? hlast) (ih hc)
  | idled _ _ hs =>
    rw [Loop.finish, if_neg hs] at hc
    cases hc
  | @joined name description nodes os hlen h _ =>
    cases hc
    have hmem : o' ∈ (nodes.zip os).map Prod.snd := by
      rw [List.map_snd_zip (Nat.le_of_eq hlen)]
      rw [Join.outputs_map_ok] at ho
      rcases KeyMap.mem_values_insertMany ho with ho | ho
      · cases ho
      · rwa [List.map_snd_zip (by simp [hlen])] at ho
    obtain ⟨⟨m, _⟩, hp, rfl⟩ := List.mem_map.1 hmem
    have hm : m ∈ nodes := (List.of_mem_zip hp).1
    exact hup (n := .parallel ..) hm ⟨m, mem_descendants_self m, h _ hp⟩
  | chosen hmem _ ih => exact hup (n := .router ..) hmem (ih hc)

end Node

/-! ## Reports -/

/-- Of two lists related member by member, each member of the second has one of the first. -/
private theorem exists_of_mem_right {α β : Type} {R : α → β → Prop} {as : List α} {bs : List β}
    (h : List.Forall₂ R as bs) {b : β} (hb : b ∈ bs) : ∃ a ∈ as, R a b := by
  induction h with
  | nil => cases hb
  | cons hab _ ih =>
    rcases List.mem_cons.1 hb with rfl | hb
    · exact ⟨_, List.mem_cons_self .., hab⟩
    · obtain ⟨a, ha, hr⟩ := ih hb
      exact ⟨a, List.mem_cons_of_mem _ ha, hr⟩

namespace StepMetrics

theorem ofEntries_eq_map (entries : List (String × StepOutput)) :
    ofEntries entries = entries.map fun e => (e.1, ofOutput e.2) := by
  induction entries with
  | nil => rw [ofEntries, List.map_nil]
  | cons e rest ih => rw [ofEntries, ih, List.map_cons]

theorem ofOutput_eq (o : StepOutput) : ofOutput o =
    { stepName := o.stepName
      executorKind := o.executorKind
      executorName := o.executorName
      metrics := if o.children.isSome then none else o.metrics
      children := o.children.map fun c => ⟨c.entries.map fun e => (e.1, ofOutput e.2)⟩
      durationMs := o.durationMs } := by
  obtain ⟨stepName, _, kind, executorName, _, _ | ⟨⟨entries⟩⟩, _, _, metrics, duration⟩ := o
  · rw [ofOutput]
    rfl
  · rw [ofOutput, ofEntries_eq_map]
    rfl

/-- The metrics that stand in those of a node, at any depth, the node's own among them. -/
inductive Within : StepMetrics → StepMetrics → Prop
  | self (m : StepMetrics) : Within m m
  | child {m inner top : StepMetrics} {children : KeyMap StepMetrics}
      (hc : top.children = some children) (hi : inner ∈ children.values) (h : Within m inner) :
      Within m top

/-- How metrics in the report of a run of some nodes hold those of children. -/
structure Shaped (nodes : List Node) (m : StepMetrics) : Prop where
  /-- Metrics of parallel kind hold those of children. -/
  parallel : m.isParallel → m.children.isSome
  /-- Metrics that hold those of children have no payload. -/
  apart : m.children.isSome → m.metrics = none
  /-- Those of children stand under the names of the children of a parallel node. -/
  keyed : ∀ c, m.children = some c → KeyedByParallel nodes c.keys
  /-- What holds those of children is of parallel kind, or of a loop over a parallel node. -/
  kind : m.children.isSome →
    m.isParallel ∨ m.executorKind = .loop ∧ LoopsOverParallel nodes m.executorName

variable {nodes : List Node} {n : Node} {o : StepOutput} {m top : StepMetrics}

/-- All metrics within those of an output of a tree are those of outputs of its nodes. -/
theorem Within.origin (h : m.Within top) (hn : n ∈ descendants nodes)
    (ho : Arises Step.PlainOutput n o) (htop : top = ofOutput o) :
    ∃ n' ∈ descendants nodes, ∃ o', Arises Step.PlainOutput n' o' ∧ m = ofOutput o' := by
  induction h generalizing n o with
  | self => exact ⟨n, hn, o, ho, htop⟩
  | child hc hi _ ih =>
    rw [htop, ofOutput_eq] at hc
    obtain ⟨outputs, hchildren, rfl⟩ := Option.map_eq_some_iff.1 hc
    obtain ⟨_, hentry, rfl⟩ := List.mem_map.1 hi
    obtain ⟨e, he, rfl⟩ := List.mem_map.1 hentry
    have hvalue : e.2 ∈ outputs.values := List.mem_map_of_mem he
    obtain ⟨n', hn', ho'⟩ := arises_of_child ho hchildren hvalue
    refine ih ?_ ho' rfl
    rw [descendants_singleton] at hn'
    rcases List.mem_cons.1 hn' with rfl | hn'
    · exact hn
    · exact descendants_trans hn hn'

theorem shaped_of_holds (h : Holds n o) (hd : ∀ m ∈ descendants [n], m ∈ descendants nodes) :
    Shaped nodes (ofOutput o) := by
  rw [ofOutput_eq]
  refine ⟨fun hp => ?_, fun hc => ?_, fun c hc => ?_, fun hc => ?_⟩
  · simpa using h.parallel (by simpa [isParallel] using hp)
  · exact if_pos (by simpa using hc)
  · obtain ⟨outputs, hchildren, rfl⟩ := Option.map_eq_some_iff.1 hc
    simpa [KeyMap.keys, Function.comp_def] using (h.keyed outputs hchildren).mono hd
  · refine (h.kind (by simpa using hc)).imp (fun hp => ?_) fun hl => ⟨hl.1, hl.2.mono hd⟩
    simpa [isParallel] using hp

end StepMetrics

namespace Workflow

variable {w : Workflow} {nodes : List Node} {input : ExecutionInput} {runId : String}

/-- The shape of the metrics, in every run of valid nodes whose executors are of no parallel kind and
give no outputs of children. Wherever metrics stand in the report of a run, those of parallel kind hold
the metrics of children; what holds such metrics has no payload of its own, and their keys are the names
of the children of one parallel node. Metrics hold those of children without being of parallel kind only
when a loop relabelled them, whose iterations end with the work of a parallel node; where no loop of the
workflow does so, metrics are of parallel kind exactly when they hold those of children. -/
theorem metrics_shaped (hp : w.plan = .nodes nodes) (hv : w.validate = .ok ()) (hx : Plain nodes)
    {token : Ref CancelToken} {feed : Option (Ref Feed)} {e e' : Engine}
    {p : Fiber Engine (Except Fault WorkflowRun)}
    (h : Evolves (Company runId token) (w.executeRun input runId token feed) e p e') :
    ∃ t, e'.journal.of runId = e.journal.of runId ++ t ∧
      (∀ run, p = .done (.ok run) → ∃ fault final, .ended fault run final ∈ t) ∧
      ∀ fault run final, .ended fault run final ∈ t →
        ∀ top ∈ run.metrics.steps.values, ∀ m : StepMetrics, m.Within top →
          m.Shaped nodes ∧
          ((∀ x, ¬ LoopsOverParallel nodes x) → (m.isParallel ↔ m.children.isSome)) := by
  have hstage := stage_of_evolves h
  obtain ⟨t, ht, -, hdone⟩ := hstage.told
  refine ⟨t, ht, hdone, fun fault run final he top htop m hm => ?_⟩
  have hn := nodup_of_validate hp hv
  obtain ⟨ctx, run₀, base, e₀, e₁, run', u, hb, hw, rfl, -, -⟩ := hstage.ended ht he
  obtain ⟨before, os, hinitial, harises, hos⟩ :=
    arises_of_work hp (fun s hs => s.gives_plain (hx s hs) ctx) hw
  rw [hb.stepResponses, List.nil_append] at hos
  rw [run'.metrics_conclude, hos] at htop
  obtain ⟨o, ho, rfl⟩ : ∃ o ∈ os, StepMetrics.ofOutput o = top := by
    rcases KeyMap.mem_values_insertMany htop with h | h
    · cases h
    · simpa using h
  obtain ⟨n, hmem, hno⟩ := exists_of_mem_right harises ho
  have hin := mem_descendants_of_mem (hinitial.subset hmem) (mem_descendants_self n)
  obtain ⟨n', hn', o', ho', rfl⟩ := hm.origin hin hno rfl
  have hshaped : (StepMetrics.ofOutput o').Shaped nodes :=
    StepMetrics.shaped_of_holds (holds_of_arises (nodup_of_mem hn' hn) ho') (sublist_of_mem hn').subset
  refine ⟨hshaped, fun hnone => ⟨hshaped.parallel, fun hc => ?_⟩⟩
  rcases hshaped.kind hc with hparallel | ⟨-, hloop⟩
  · exact hparallel
  · exact absurd hloop (hnone _)

/-- Says its own name. -/
private def probe (name : String) : Step where
  name
  executor := .ofFunction name fun _ => .ok (.ofText name)

private theorem plain_probe (name : String) : (probe name).executor.Plain := by
  change (Executor.ofFunction name fun _ => .ok (.ofText name)).Plain
  refine Executor.plain_ofFunction ?_
  rintro input _ ⟨⟩
  rfl

/-- Two probes side by side, time and again. -/
private def sampling : Workflow where
  id := "sampling"
  name := "sampling"
  plan := .nodes
    [.loop "sample" none 2 none [.parallel "probes" none [.step (probe "left"), .step (probe "right")]]]
  slot := ⟨0⟩

private def bench : Engine :=
  { start := ⟨0, 0⟩
    states := ⟨[∅]⟩
    tokens := ⟨[{}]⟩
    slots := ⟨[{ id := "session", state := ⟨0⟩ }]⟩ }

private theorem poll_sampling : (match (sampling.executeRun {} "run" ⟨0⟩ none).poll bench with
    | .done (.ok run) _ => run.metrics.steps.values.any fun m =>
      m.executorKind == .loop && (m.children.map KeyMap.keys) == some ["left", "right"]
    | _ => false) = true := by
  decide +kernel

/-- The metrics of a loop over a parallel node hold those of its children, but are of the kind of a loop. -/
theorem metrics_relabelled_sampling : ∃ nodes, sampling.plan = .nodes nodes ∧
    sampling.validate = .ok () ∧ Plain nodes ∧ ∃ run e,
      Evolves (Company "run" ⟨0⟩) (sampling.executeRun {} "run" ⟨0⟩ none) bench
        (.done (.ok run)) e ∧
      ∃ m ∈ run.metrics.steps.values, m.isParallel = false ∧ m.executorKind = .loop ∧
        m.children.map KeyMap.keys = some ["left", "right"] := by
  have hvalid : sampling.validate = .ok () := by rfl
  refine ⟨_, rfl, hvalid, fun s hs => ?_, ?_⟩
  · obtain rfl | rfl : s = probe "left" ∨ s = probe "right" := by simpa [descendants, inside] using hs
    · exact plain_probe _
    · exact plain_probe _
  have hends := poll_sampling
  cases hpoll : (sampling.executeRun {} "run" ⟨0⟩ none).poll bench with
  | waiting p e | aborted message e =>
    rw [hpoll] at hends
    cases hends
  | done r e =>
    rw [hpoll] at hends
    cases r with
    | error fault => cases hends
    | ok run =>
      obtain ⟨m, hm, hkind⟩ := List.any_eq_true.1 hends
      simp only [Bool.and_eq_true, beq_iff_eq] at hkind
      exact ⟨run, e, evolves_of_poll_done hpoll, m, hm, by simp [StepMetrics.isParallel, hkind.1],
        hkind⟩

/-- Two probes side by side, the last of a group. -/
private def polling : Workflow where
  id := "polling"
  name := "polling"
  plan := .nodes [.steps "round" none [.step (probe "open"),
    .parallel "votes" none [.step (probe "left"), .step (probe "right")]]]
  slot := ⟨0⟩

private theorem poll_polling : (match (polling.executeRun {} "run" ⟨0⟩ none).poll bench with
    | .done (.ok run) _ => run.metrics.steps.values.any fun m =>
      m.stepName == "round" && m.children.isSome
    | _ => false) = true := by
  decide +kernel

/-- The metrics of a group that ends with a parallel node hold those of its children, and are of parallel
kind as no loop relabelled them. -/
theorem metrics_shaped_polling : ∃ nodes, polling.plan = .nodes nodes ∧
    polling.validate = .ok () ∧ Plain nodes ∧ ∃ run e,
      Evolves (Company "run" ⟨0⟩) (polling.executeRun {} "run" ⟨0⟩ none) bench (.done (.ok run)) e ∧
      ∃ m ∈ run.metrics.steps.values, m.stepName = "round" ∧ m.isParallel ∧ m.Shaped nodes := by
  have hvalid : polling.validate = .ok () := by rfl
  have hplain : Plain [.steps "round" none [.step (probe "open"),
      .parallel "votes" none [.step (probe "left"), .step (probe "right")]]] := fun s hs => by
    obtain rfl | rfl | rfl : s = probe "open" ∨ s = probe "left" ∨ s = probe "right" := by
      simpa [descendants, inside] using hs
    · exact plain_probe _
    · exact plain_probe _
    · exact plain_probe _
  have hends := poll_polling
  cases hpoll : (polling.executeRun {} "run" ⟨0⟩ none).poll bench with
  | waiting p e | aborted message e =>
    rw [hpoll] at hends
    cases hends
  | done r e =>
    rw [hpoll] at hends
    cases r with
    | error fault => cases hends
    | ok run =>
      obtain ⟨m, hm, hround⟩ := List.any_eq_true.1 hends
      simp only [Bool.and_eq_true, beq_iff_eq] at hround
      have h : Evolves (Company "run" ⟨0⟩) (polling.executeRun {} "run" ⟨0⟩ none) bench
          (.done (.ok run)) e := evolves_of_poll_done hpoll
      obtain ⟨t, ht, hdone, hshapes⟩ := metrics_shaped rfl hvalid hplain h
      obtain ⟨fault, final, he⟩ := hdone run rfl
      obtain ⟨hshaped, hparallel⟩ := hshapes fault run final he m hm m (.self m)
      refine ⟨_, rfl, hvalid, hplain, run, e, h, m, hm, hround.1, (hparallel ?_).2 hround.2, hshaped⟩
      rintro x ⟨description, maxIterations, ends, children, c, hloop, -⟩
      simp [descendants, inside] at hloop

end Workflow

end WorkflowEngine
