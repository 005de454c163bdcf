import WorkflowEngine.Node.Execution
import WorkflowEngine.Proofs.Node.Joining
import WorkflowEngine.Proofs.Node.Places
import WorkflowEngine.Proofs.Run.Values

/-!
# Origins of outputs

How the output of a node comes from those of the steps below it. A group, a loop or a router adopts an
output of one of its children and rewrites some of its fields, others when the child halted it than when
it was completed. Main statement: every output that a node gives arises in this manner.
-/

namespace WorkflowEngine

open RunTask

/-! ## Steps -/

namespace Step

variable {s : Step} {ctx : RunContext} {V W : StepOutput → Prop}

theorem gives_limited {limit : Option Nat} {work : RunTask StepOutput} (h : work.Gives V) :
    (s.limited limit work).Gives V := by
  unfold limited
  split
  · exact h
  · refine .after_any fun now => .lift (Fiber.Gives.race h) fun r hr => ?_
    cases r with
    | none => exact .throw _
    | some result => exact .ofResult (hr result rfl)

theorem gives_attempt {input : StepInput} {limit : Option Nat}
    (h : (s.invoke input ctx).Gives V) : (s.attempt input ctx limit).Gives V := by
  unfold attempt
  refine .lift (Fiber.Gives.race (gives_limited h)) fun r hr => ?_
  cases r with
  | none => exact .throw _
  | some result => exact .ofResult (hr result rfl)

theorem gives_attempts {input : StepInput} {limit : Option Nat}
    (h : (s.invoke input ctx).Gives V) (retries : Nat) :
    (s.attempts input ctx limit retries).Gives fun r => ∀ o, r = .ok o → V o := by
  have honce {otherwise : String → RunTask (Except String StepOutput)}
      (ho : ∀ message, (otherwise message).Gives fun r => ∀ o, r = .ok o → V o) :
      (attempts.once s input ctx limit otherwise).Gives fun r => ∀ o, r = .ok o → V o := by
    refine .after_any fun _ => .result (gives_attempt h) fun r hr => ?_
    cases r with
    | ok output => exact .pure fun o ho => Except.ok.inj ho ▸ hr output rfl
    | error fault =>
      dsimp only
      split
      · exact .throw _
      · exact ho _
  induction retries with
  | zero => exact honce fun _ => .pure fun _ ho => nomatch ho
  | succ retries ih => exact honce fun _ => ih

/-- A step gives its stamp to what its executor gave, or to what it makes of a failure. -/
theorem gives_execute {input : StepInput} (h : (s.invoke input ctx).Gives V)
    (hs : ∀ o ms, V o → W (s.stamp o ms))
    (hf : ∀ message ms, W (s.stamp (s.afterFailure message) ms)) :
    (s.execute input ctx).Gives W := by
  unfold execute
  refine .after_any fun started => .bind (gives_attempts h _) fun r hr => .after_any fun ended => ?_
  cases r with
  | ok o => exact .pure (hs o _ (hr o rfl))
  | error message => exact .pure (hf message _)

end Step

/-! ## Composite nodes -/

namespace Node

/-- Whether a node runs its children once, one after another. -/
def isGroup : Node → Bool
  | steps .. | condition .. => true
  | _ => false

/-- The outputs that arise for a node, given those that its steps may have. -/
inductive Arises (P : Step → StepOutput → Prop) : Node → StepOutput → Prop
  | step {s : Step} {o : StepOutput} (h : P s o) : Arises P (.step s) o
  | dated {n : Node} {o : StepOutput} (h : Arises P n o) (ms : Option Nat) :
      Arises P n { o with durationMs := ms }
  | halted {n c : Node} {o : StepOutput} (hn : n.isGroup) (hc : c ∈ n.children)
      (h : Arises P c o) (ho : o.halts) : Arises P n o
  | completed {n c : Node} {o : StepOutput} (hn : n.isGroup) (hc : n.children.getLast? = some c)
      (h : Arises P c o) (ho : o.halts = false) (media : MediaSet) :
      Arises P n { o with stepName := n.name, media }
  | passed {n : Node} (hn : n.isGroup) (input : StepInput) :
      Arises P n (passthrough n.name n.kind input)
  /-- A child halted an iteration. -/
  | interrupted {name : String} {description : Option String} {maxIterations : Nat}
      {ends : Option (List StepOutput → Except String Bool)} {children : List Node} {c : Node}
      {o : StepOutput} (hc : c ∈ children) (h : Arises P c o) (ho : o.halts)
      (outputs : List StepOutput) :
      Arises P (.loop name description maxIterations ends children)
        (Loop.finish name o outputs .interrupted).output
  /-- The last iteration was completed. -/
  | finished {name : String} {description : Option String} {maxIterations : Nat}
      {ends : Option (List StepOutput → Except String Bool)} {children : List Node} {c : Node}
      {o : StepOutput} (hc : children.getLast? = some c) (h : Arises P c o) (ho : o.halts = false)
      (outputs : List StepOutput) {state : LoopState} (hs : state ≠ .interrupted) :
      Arises P (.loop name description maxIterations ends children)
        (Loop.finish name o outputs state).output
  /-- There was nothing to iterate. -/
  | idled {name : String} {description : Option String} {maxIterations : Nat}
      {ends : Option (List StepOutput → Except String Bool)} {children : List Node}
      (input : StepInput) (outputs : List StepOutput) {state : LoopState}
      (hs : state ≠ .interrupted) :
      Arises P (.loop name description maxIterations ends children)
        (Loop.finish name (passthrough name .loop input) outputs state).output
  | joined {name : String} {description : Option String} {children : List Node}
      {os : List StepOutput} (hlen : os.length = children.length)
      (h : ∀ p ∈ children.zip os, Arises P p.1 p.2) :
      Arises P (.parallel name description children) (Join.output name (children.map Node.name)
        (Join.outputs (children.map Node.name) (os.map .ok)))
  | chosen {name : String} {description : Option String} {select : StepInput → Except String String}
      {choices : List Node} {c : Node} {o : StepOutput} (hc : c ∈ choices) (h : Arises P c o) :
      Arises P (.router name description select choices) o

/-- What becomes of nodes that run one after another, by what arises for them. -/
def SequenceArises (P : Step → StepOutput → Prop) (nodes : List Node) : Sequence → Prop
  | .halted o => ∃ c ∈ nodes, Arises P c o ∧ o.halts
  | .completed o _ _ => ∃ c, nodes.getLast? = some c ∧ Arises P c o ∧ o.halts = false
  | .empty _ => nodes = []

/-- What the steps of some trees give is of a kind. -/
def StepsGive (ctx : RunContext) (P : Step → StepOutput → Prop) (nodes : List Node) : Prop :=
  ∀ s, .step s ∈ descendants nodes → ∀ input, (s.execute input ctx).Gives (P s)

variable {P : Step → StepOutput → Prop} {ctx : RunContext}

theorem StepsGive.children {n : Node} (h : StepsGive ctx P [n]) : StepsGive ctx P n.children :=
  fun s hs => h s (mem_descendants_children hs)

theorem StepsGive.head {n : Node} {rest : List Node} (h : StepsGive ctx P (n :: rest)) :
    StepsGive ctx P [n] :=
  fun s hs => h s (mem_descendants_of_mem (List.mem_cons_self ..) hs)

theorem StepsGive.tail {n : Node} {rest : List Node} (h : StepsGive ctx P (n :: rest)) :
    StepsGive ctx P rest :=
  fun s hs => h s (mem_descendants_tail hs)

theorem gives_reported {n : Node} {input : StepInput} {work : RunTask StepOutput}
    (h : work.Gives (Arises P n)) : (n.reported input ctx work).Gives (Arises P n) := by
  unfold reported
  refine .after_any fun _ => .after_any fun _ => .after_any fun _ => .after_any fun started => ?_
  refine .bind h fun output ho => .after_any fun ended => ?_
  dsimp only
  split
  · exact .after_any fun _ => .after_any fun _ => .pure (ho.dated _)
  · exact .after_any fun _ => .after_any fun _ => .pure ho

private theorem gives_grouped {n : Node} {task : RunTask Sequence} (hn : n.isGroup)
    (h : task.Gives (SequenceArises P n.children)) :
    RunTask.Gives (do return (← task).grouped n.name n.kind) (Arises P n) := by
  refine .bind h fun q hq => .pure ?_
  cases q with
  | halted o =>
    obtain ⟨c, hc, harises, ho⟩ := hq
    exact .halted hn hc harises ho
  | completed o next produced =>
    obtain ⟨c, hc, harises, ho⟩ := hq
    exact .completed hn hc harises ho produced
  | empty input => exact .passed hn input

/-! ## Loops -/

section

variable {name : String} {description : Option String} {maxIterations cap : Nat}
  {ends : Option (List StepOutput → Except String Bool)} {children : List Node}
  {body : StepInput → RunTask Sequence}

/-- The output of an iteration that was completed. -/
private def Iterates (P : Step → StepOutput → Prop) (name : String) (children : List Node)
    (o : StepOutput) : Prop :=
  (∃ c, children.getLast? = some c ∧ Arises P c o ∧ o.halts = false) ∨
    ∃ input, o = passthrough name .loop input

private theorem Iterates.finish {o : StepOutput} (h : Iterates P name children o)
    (outputs : List StepOutput) {state : LoopState} (hs : state ≠ .interrupted) :
    Arises P (.loop name description maxIterations ends children)
      (Loop.finish name o outputs state).output := by
  rcases h with ⟨c, hc, harises, ho⟩ | ⟨input, rfl⟩
  · exact .finished hc harises ho outputs hs
  · exact .idled input outputs hs

private theorem gives_turn (hb : ∀ input, (body input).Gives (SequenceArises P children))
    {isLast : Bool} {done : List StepOutput} {input : StepInput}
    {otherwise : StepOutput → List StepOutput → StepInput → RunTask LoopResult}
    (ho : ∀ o done next, Iterates P name children o → (otherwise o done next).Gives fun r =>
      Arises P (.loop name description maxIterations ends children) r.output) :
    (Loop.turn name cap ends ctx body isLast done input otherwise).Gives fun r =>
      Arises P (.loop name description maxIterations ends children) r.output := by
  have hconclude (iteration : Nat) (o : StepOutput) (next : StepInput)
      (h : Iterates P name children o) :
      (Loop.turn.conclude name ends ctx isLast done otherwise iteration o next).Gives fun r =>
        Arises P (.loop name description maxIterations ends children) r.output := by
    refine .after_any fun converged => .after_any fun _ => ?_
    split
    · exact .pure (h.finish _ (by simp))
    · exact ho _ _ _ h
  unfold Loop.turn
  refine .after_any fun _ => .after_any fun _ => .bind (hb input) fun q hq => ?_
  cases q with
  | halted o =>
    obtain ⟨c, hc, harises, hh⟩ := hq
    exact .after_any fun _ => .pure (.interrupted hc harises hh _)
  | completed o next produced => exact hconclude _ _ _ (.inl hq)
  | empty next => exact hconclude _ _ _ (.inr ⟨next, rfl⟩)

private theorem gives_run (description : Option String)
    (hb : ∀ input, (body input).Gives (SequenceArises P children)) (input : StepInput) :
    (Loop.run name maxIterations ends ctx body input).Gives fun r =>
      Arises P (.loop name description maxIterations ends children) r.output := by
  have hiterate (left : Nat) (done : List StepOutput) (input : StepInput) :
      (Loop.iterate name maxIterations ends ctx body left done input).Gives fun r =>
        Arises P (.loop name description maxIterations ends children) r.output := by
    induction left generalizing done input with
    | zero => exact gives_turn hb fun o done _ h => .pure (h.finish _ (by simp))
    | succ left ih => exact gives_turn hb fun _ _ _ _ => ih _ _
  unfold Loop.run
  split
  · exact .throw _
  · exact hiterate _ _ _

end

/-! ## Parallel children -/

/-- The results of nodes on one input. -/
private def AllArise (P : Step → StepOutput → Prop) (nodes : List Node)
    (results : List (Except Fault StepOutput)) : Prop :=
  List.Forall₂ (fun n r => ∀ o, r = .ok o → Arises P n o) nodes results

private theorem joined_of_result {name : String} (description : Option String)
    {children : List Node} {results : List (Except Fault StepOutput)} {o : StepOutput}
    (h : AllArise P children results)
    (ho : Join.result name (children.map Node.name) results = .ok o) :
    Arises P (.parallel name description children) o := by
  unfold Join.result at ho
  split at ho
  · cases ho
  rename_i hfault
  obtain ⟨os, rfl⟩ := Join.eq_map_ok_of_fault? hfault
  cases ho
  have hos : List.Forall₂ (Arises P) children os := by
    refine (List.forall₂_map_right_iff.1 h).imp fun n o ho => ho o rfl
  exact .joined hos.length_eq.symm fun p hp => (List.forall₂_iff_zip.1 hos).2 hp

/-! ## Trees -/

mutual

private theorem gives_perform (input : StepInput) : (n : Node) →
    StepsGive ctx P [n] → (perform input ctx n).Gives (Arises P n)
  | .step s, h => by
    rw [perform]
    exact (h s (mem_descendants_self _) input).mono fun _ => .step
  | .steps name description children, h => by
    rw [perform]
    exact gives_grouped (n := .steps name description children) rfl
      (gives_runSequence children h.children input)
  | .condition name description test children, h => by
    rw [perform]
    refine .after_any fun holds => .after_any fun _ => ?_
    split
    · exact gives_grouped (n := .condition name description test children) rfl
        (gives_runSequence children h.children input)
    · exact .pure (.passed (n := .condition name description test children) rfl input)
  | .loop name description maxIterations ends children, h => by
    rw [perform]
    exact .bind (gives_run description (gives_runSequence children h.children) input)
      fun r hr => .pure hr
  | .parallel name description children, h => by
    rw [perform]
    refine .after_any fun _ => .lift (Fiber.Gives.all (gives_runAll input children h.children))
      fun results hr => ?_
    have hr : AllArise P children results := List.forall₂_map_left_iff.1 hr
    refine .bind (.ofResult fun o ho => joined_of_result description hr ho)
      fun o ho => .after_any fun _ => .pure ho
  | .router name description select choices, h => by
    rw [perform]
    refine .after_any fun choice => .after_any fun _ => ?_
    refine (gives_runChoice input choice.name choices h.children).mono fun o ho => ?_
    obtain ⟨c, hc, ho⟩ := ho
    exact .chosen hc ho

private theorem gives_runSequence : (nodes : List Node) →
    StepsGive ctx P nodes → ∀ input, (runSequence ctx nodes input).Gives (SequenceArises P nodes)
  | [], _, input => by
    rw [runSequence]
    exact .pure rfl
  | n :: rest, h, input => by
    rw [runSequence]
    refine .bind (gives_reported (gives_perform input n h.head)) fun o ho => ?_
    split
    · rename_i hh
      exact .pure ⟨n, List.mem_cons_self .., ho, hh⟩
    rename_i hh
    refine .bind (gives_runSequence rest h.tail _) fun q hq => .pure ?_
    cases q with
    | halted o' =>
      obtain ⟨c, hc, harises, hh'⟩ := hq
      exact ⟨c, List.mem_cons_of_mem _ hc, harises, hh'⟩
    | completed o' next produced =>
      obtain ⟨c, hc, harises, hh'⟩ := hq
      refine ⟨c, ?_, harises, hh'⟩
      rw [List.getLast?_cons, hc]
      rfl
    | empty next =>
      obtain rfl : rest = [] := hq
      exact ⟨n, rfl, ho, by simpa using hh⟩

private theorem gives_runAll (input : StepInput) : (nodes : List Node) →
    StepsGive ctx P nodes → List.Forall₂ Fiber.Gives (runAll input ctx nodes)
      (nodes.map fun n r => ∀ o, r = .ok o → Arises P n o)
  | [], _ => by
    rw [runAll]
    exact .nil
  | n :: rest, h => by
    rw [runAll]
    exact .cons (gives_reported (gives_perform input n h.head)) (gives_runAll input rest h.tail)

private theorem gives_runChoice (input : StepInput) (name : String) : (nodes : List Node) →
    StepsGive ctx P nodes → (runChoice input ctx name nodes).Gives fun o => ∃ c ∈ nodes, Arises P c o
  | [], _ => by
    rw [runChoice]
    exact .throw _
  | n :: rest, h => by
    rw [runChoice]
    split
    · exact (gives_reported (gives_perform input n h.head)).mono fun o ho =>
        ⟨n, List.mem_cons_self .., ho⟩
    · refine (gives_runChoice input name rest h.tail).mono ?_
      rintro o ⟨c, hc, ho⟩
      exact ⟨c, List.mem_cons_of_mem _ hc, ho⟩

end

/-- Every output that a node gives arises from outputs of its steps. -/
theorem gives_execute {n : Node} (h : StepsGive ctx P [n]) (input : StepInput) :
    (n.execute input ctx).Gives (Arises P n) :=
  gives_reported (gives_perform input n h)

end Node

end WorkflowEngine
