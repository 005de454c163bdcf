import WorkflowEngine.Node.Validation
import WorkflowEngine.Proofs.Node.Cancellation
import WorkflowEngine.Proofs.Node.Places
import WorkflowEngine.Proofs.Run.Faults

/-!
# Faults of nodes

An executor whose own faults are not fatal cannot make a node fail with a fault: its step turns
them into outputs. Main statement: the fault of a tree of such executors is that of a cancelled run,
or was raised by a callback of a condition, a loop or a router of the tree.
-/

namespace WorkflowEngine

open RunTask

variable {ctx : RunContext} {before : List Happening}

/-- A script whose own faults are not fatal. -/
def Script.Mild {ε α : Type} : Script ε α → Prop
  | finish _ | abort _ => True
  | fail fault => fault.isFatal = false
  | look next => ∀ state, (next state).Mild
  | change _ next | sleep _ next | cancel next | emit _ next => next.Mild
  | cancelled next => ∀ b, (next b).Mild
  | count _ next => ∀ calls, (next calls).Mild

/-- An executor whose own faults are not fatal, called or streamed. -/
def Executor.Mild (x : Executor) : Prop :=
  ∀ input ctx, (x.call input ctx).Mild ∧ (x.stream input ctx).Mild

/-- Trees of executors whose own faults are not fatal. -/
def Node.Mild (nodes : List Node) : Prop := ∀ s, .step s ∈ descendants nodes → s.executor.Mild

namespace Step

/-- A fault that does not end a run. -/
def nonfatal : Causes := ⟨fun _ fault => fault.isFatal = false, fun _ h => h⟩

theorem excused_script {ε α : Type} {send : ε → Fiber Engine Unit}
    (hs : ∀ event, ctx.Silent (send event)) {script : Script ε α} (h : script.Mild) :
    Fiber.Obeys ctx.watch (script.run ctx send) (nonfatal.account before) := by
  have hact {β : Type} {step : Engine → β × Engine} {next : β → Fiber Engine (Except Fault α)}
      (ha : ∀ e, ctx.Acts e [] (step e).2)
      (hn : ∀ b, Fiber.Obeys ctx.watch (next b) (nonfatal.account before)) :
      Fiber.Obeys ctx.watch (.act step next) (nonfatal.account before) :=
    ⟨fun _ hr => (by cases hr), fun e => ⟨[], ⟨ha e, fun h => by cases h⟩, hn _⟩⟩
  have hnone : nonfatal.account (α := α) before [] none := fun _ hr => by cases hr
  induction script with
  | finish a => exact fun _ hr => by cases hr
  | fail fault =>
    intro fault' hr
    cases hr
    exact .inr h
  | look next ih => exact hact (fun e => .refl ctx e) fun state => ih state (h state)
  | change f next ih => exact hact (fun e => RunContext.acts_setState _ e) fun _ => ih h
  | sleep ms next ih =>
    exact (RunContext.silent_sleep ctx ms).watched.silent_bind hnone fun _ => ih h
  | cancel next ih => exact hact (fun e => RunContext.acts_cancel e) fun _ => ih h
  | cancelled next ih => exact hact (fun e => .refl ctx e) fun b => ih b (h b)
  | emit event next ih => exact (hs event).watched.silent_bind hnone fun _ => ih h
  | count tally next ih => exact hact (fun e => RunContext.acts_count tally e) fun n => ih n (h n)
  | abort message => exact hnone

variable {s : Step} (hs : s.executor.Mild)

include hs

theorem excused_invoke (input : StepInput) : Excused ctx nonfatal before (s.invoke input ctx) := by
  unfold invoke
  refine .note rfl ?_
  split
  · refine .bind (excused_script (silent_forward s ctx) (hs _ _).2) fun output => ?_
    split
    · exact .pure _
    · exact .throw rfl
  · exact excused_script (fun e => e.elim) (hs _ _).1

theorem excused_limited (input : StepInput) (limit : Option Nat) :
    Excused ctx nonfatal before (s.limited limit (s.invoke input ctx)) := by
  have hwork : Excused ctx nonfatal before (s.invoke input ctx) := excused_invoke hs input
  unfold limited
  split
  · exact hwork
  rename_i ms
  refine .silent (RunContext.silent_time ctx) fun now => ?_
  have hwithin : Fiber.Obeys ctx.watch
      (Fiber.within (now + allowance ms) (fun e => now + allowance ms ≤ e.now)
        (s.invoke input ctx).run)
      fun t r => ∀ q, r = some (some q) → nonfatal.account before t (some q) := by
    refine .race hwork fun t r ht => ⟨fun _ h => (nomatch h), fun _ h => (nomatch h), ?_⟩
    rintro q rfl q' hq
    cases hq
    exact ht
  refine .lift hwithin fun t r ht => ?_
  cases r with
  | some result => exact Fiber.Obeys.of_done (ht result rfl)
  | none =>
    refine Fiber.Obeys.of_done fun fault hr => .inr ?_
    cases hr
    rfl

theorem excused_attempt (input : StepInput) (limit : Option Nat) :
    Excused ctx nonfatal before (s.attempt input ctx limit) := by
  have hwork : Excused ctx nonfatal before (s.limited limit (s.invoke input ctx)) :=
    excused_limited hs input limit
  have hcancellable : Fiber.Obeys ctx.watch
      (Fiber.cancellable (fun e => e.isCancelled ctx.token)
        (s.limited limit (s.invoke input ctx)).run)
      fun t r => (r = some none → none ∈ t) ∧
        ∀ q, r = some (some q) → nonfatal.account before t (some q) := by
    refine .stoppable hwork (fun _ _ _ => ⟨fun h => (nomatch h), fun _ h => nomatch h⟩)
      (fun t r _ e he => ?_) fun t q ht => ⟨fun h => (nomatch h), fun q' h => ?_⟩
    · rw [Bool.or_false] at he
      exact ⟨[none], RunContext.watch_cancelled he, fun _ => by simp, fun _ h => nomatch h⟩
    · cases h
      exact ht
  refine .lift hcancellable fun t r ht => ?_
  cases r with
  | some result => exact Fiber.Obeys.of_done (ht.2 result rfl)
  | none =>
    refine Fiber.Obeys.of_done fun fault hr => .inl ⟨?_, ht.1 rfl⟩
    cases hr
    rfl

variable {C : Causes}

private theorem excused_once {input : StepInput} {limit : Option Nat}
    {otherwise : String → RunTask (Except String StepOutput)}
    (ho : ∀ message, Excused ctx C before (otherwise message)) :
    Excused ctx C before (attempts.once s input ctx limit otherwise) := by
  have hattempt : Excused ctx nonfatal before (s.attempt input ctx limit) :=
    excused_attempt hs input limit
  refine .bind .checkCancelled fun _ => .result hattempt fun t r ht => ?_
  cases r with
  | ok output => exact Fiber.Obeys.of_done fun _ hr => by cases hr
  | error fault =>
    dsimp only
    split
    · rename_i hfatal
      -- A fatal fault of an attempt is the cancellation of the run.
      refine Fiber.Obeys.of_done fun fault' hr => .inl ?_
      cases hr
      rcases ht fault rfl with hc | hf
      · exact hc
      · exact absurd (hf.symm.trans hfatal) (by decide)
    · exact (ho _).mono fun u q hu =>
        Causes.account_after (Causes.account_mono (List.subset_append_left ..) hu)

theorem excused_attempts (input : StepInput) (limit : Option Nat) (retries : Nat) :
    Excused ctx C before (s.attempts input ctx limit retries) := by
  induction retries with
  | zero => exact excused_once hs fun _ => .pure _
  | succ retries ih => exact excused_once hs fun _ => ih

/-- The fault of a step is that of a cancelled run. -/
theorem excused_execute (input : StepInput) : Excused ctx C before (s.execute input ctx) := by
  unfold execute
  refine .silent (RunContext.silent_time ctx) fun started => ?_
  refine .bind (excused_attempts hs input _ _) fun result => ?_
  exact .silent (RunContext.silent_time ctx) fun ended => .pure _

end Step

namespace Loop

theorem error_of_converged {name : String} {ends : List StepOutput → Except String Bool}
    {outputs : List StepOutput} {fault : Fault}
    (h : converged name (some ends) outputs = .error fault) :
    ∃ message, ends outputs = .error message ∧ fault = .evaluator name message := by
  unfold converged at h
  dsimp only at h
  cases hends : ends outputs with
  | error message =>
    rw [hends] at h
    exact ⟨message, rfl, (Except.error.inj h).symm⟩
  | ok holds =>
    rw [hends] at h
    cases h

variable {C : Causes} {name : String} {maxIterations : Nat}
  {ends : Option (List StepOutput → Except String Bool)} {body : StepInput → RunTask Sequence}
  (hb : ∀ input, Excused ctx C before (body input))
  (he : ∀ outputs fault, converged name ends outputs = .error fault → C.of before fault)

include hb he

theorem excused_turn {isLast : Bool} {done : List StepOutput} {input : StepInput}
    {otherwise : StepOutput → List StepOutput → StepInput → RunTask LoopResult}
    (ho : ∀ output done next, Excused ctx C before (otherwise output done next)) :
    Excused ctx C before
      (turn name maxIterations ends ctx body isLast done input otherwise) := by
  have hconclude (iteration : Nat) (output : StepOutput) (next : StepInput) :
      Excused ctx C before
        (turn.conclude name ends ctx isLast done otherwise iteration output next) := by
    refine .bind (.ofResult (he _)) fun converged => ?_
    refine .silent (RunContext.silent_emit ctx _) fun _ => ?_
    split
    · exact .pure _
    · exact ho _ _ _
  refine .bind .checkCancelled fun _ => .silent (RunContext.silent_emit ctx _) fun _ => ?_
  refine .bind (hb input) fun q => ?_
  cases q with
  | halted output => exact .silent (RunContext.silent_emit ctx _) fun _ => .pure _
  | completed output next produced => exact hconclude _ _ _
  | empty next => exact hconclude _ _ _

theorem excused_iterate (left : Nat) (done : List StepOutput) (input : StepInput) :
    Excused ctx C before (iterate name maxIterations ends ctx body left done input) := by
  induction left generalizing done input with
  | zero => exact excused_turn hb he fun _ _ _ => .pure _
  | succ left ih => exact excused_turn hb he fun _ _ _ => ih _ _

theorem excused_run (hm : maxIterations ≠ 0) (input : StepInput) :
    Excused ctx C before (run name maxIterations ends ctx body input) := by
  cases maxIterations with
  | zero => exact absurd rfl hm
  | succ left => exact excused_iterate hb he left [] input

end Loop

namespace Join

/-- The fault that decides is one of a child. -/
theorem mem_of_fault? {results : List (Except Fault StepOutput)} {fault : Fault}
    (h : fault? results = some fault) : .error fault ∈ results := by
  induction results with
  | nil => cases h
  | cons r rest ih =>
    cases r with
    | ok output => exact List.mem_cons_of_mem _ (ih h)
    | error fault' =>
      rw [fault?] at h
      split at h
      · cases h
        exact List.mem_cons_self ..
      · split at h
        · rename_i hany
          cases h
          obtain ⟨r, hr, hc⟩ := List.any_eq_true.1 hany
          unfold fault?.isCancelled at hc
          split at hc
          · exact List.mem_cons_of_mem _ hr
          · cases hc
        · cases h
          exact List.mem_cons_self ..

theorem mem_of_result {name : String} {names : List String}
    {results : List (Except Fault StepOutput)} {fault : Fault}
    (h : result name names results = .error fault) : .error fault ∈ results := by
  unfold result at h
  split at h
  · rename_i hfault
    cases h
    exact mem_of_fault? hfault
  · cases h

end Join

namespace Node

/-- A callback of a node that was entered failed, or a router that was entered selected none of its
choices. -/
inductive Raised (nodes : List Node) (t : List Happening) : Fault → Prop
  | condition {name : String} {description : Option String}
      {test : StepInput → Except String Bool} {children : List Node} {input : StepInput}
      {message : String} (hn : condition name description test children ∈ descendants nodes)
      (hi : .entered name input ∈ t) (h : test input = .error message) :
      Raised nodes t (.evaluator name message)
  | loop {name : String} {description : Option String} {maxIterations : Nat}
      {ends : List StepOutput → Except String Bool} {children : List Node} {input : StepInput}
      {outputs : List StepOutput} {message : String}
      (hn : loop name description maxIterations (some ends) children ∈ descendants nodes)
      (hi : .entered name input ∈ t) (h : ends outputs = .error message) :
      Raised nodes t (.evaluator name message)
  | router {name : String} {description : Option String}
      {select : StepInput → Except String String} {choices : List Node} {input : StepInput}
      {message : String} (hn : router name description select choices ∈ descendants nodes)
      (hi : .entered name input ∈ t) (h : select input = .error message) :
      Raised nodes t (.evaluator name message)
  | unknown {name : String} {description : Option String}
      {select : StepInput → Except String String} {choices : List Node} {input : StepInput}
      {selected : String} (hn : router name description select choices ∈ descendants nodes)
      (hi : .entered name input ∈ t) (h : select input = .ok selected)
      (hs : ∀ c ∈ choices, c.name ≠ selected) :
      Raised nodes t
        (.routerMisconfigured name selected (String.intercalate ", " (choices.map Node.name)))

theorem Raised.mono {nodes nodes' : List Node} {t u : List Happening} {fault : Fault}
    (hn : ∀ m ∈ descendants nodes, m ∈ descendants nodes') (ht : t ⊆ u)
    (h : Raised nodes t fault) : Raised nodes' u fault := by
  cases h with
  | condition hm hi h => exact .condition (hn _ hm) (ht hi) h
  | loop hm hi h => exact .loop (hn _ hm) (ht hi) h
  | router hm hi h => exact .router (hn _ hm) (ht hi) h
  | unknown hm hi h hs => exact .unknown (hn _ hm) (ht hi) h hs

/-- What may be raised in a tree. -/
def raised (nodes : List Node) : Causes := ⟨Raised nodes, Raised.mono fun _ hm => hm⟩

theorem excused_among {nodes nodes' : List Node} {α : Type} {t : RunTask α}
    (hn : ∀ m ∈ descendants nodes, m ∈ descendants nodes')
    (h : Excused ctx (raised nodes) before t) : Excused ctx (raised nodes') before t :=
  h.causes fun _ _ => Raised.mono hn (List.Subset.refl _)

/-- Trees of mild executors in which nothing is wrong with a node. -/
structure Fit (nodes : List Node) : Prop where
  mild : Mild nodes
  shape : ∀ m ∈ descendants nodes, m.shapeFault? = none

theorem Fit.mono {nodes nodes' : List Node} (h : Fit nodes')
    (hn : ∀ m ∈ descendants nodes, m ∈ descendants nodes') : Fit nodes :=
  ⟨fun s hs => h.mild s (hn _ hs), fun m hm => h.shape m (hn m hm)⟩

theorem excused_reported {C : Causes} {n : Node} {input : StepInput} {work : RunTask StepOutput}
    (hw : Excused ctx C (before ++ [.entered n.name input]) work) :
    Excused ctx C before (n.reported input ctx work) := by
  unfold reported
  refine .bind .checkCancelled fun _ => .note rfl ?_
  refine .silent (RunContext.silent_emit ctx _) fun _ => ?_
  refine .silent (RunContext.silent_time ctx) fun started => .bind hw fun output => ?_
  refine .silent (RunContext.silent_time ctx) fun ended => .note rfl ?_
  exact .silent (RunContext.silent_emit ctx _) fun _ => .pure _

/-- The choice of a router is one of its choices. -/
theorem mem_of_choose {name : String} {select : StepInput → Except String String}
    {choices : List Node} {input : StepInput} {choice : Node}
    (h : choose name select choices input = .ok choice) : choice ∈ choices := by
  unfold choose at h
  split at h
  · cases h
  · split at h
    · rename_i hfind
      cases h
      exact List.mem_of_find?_eq_some hfind
    · cases h

/-- The fault of a router that was entered and could not choose. -/
theorem raised_of_choose {name : String} {description : Option String}
    {select : StepInput → Except String String} {choices : List Node} {input : StepInput}
    {fault : Fault} {t : List Happening} (h : choose name select choices input = .error fault)
    (hi : .entered name input ∈ t) : Raised [router name description select choices] t fault := by
  unfold choose at h
  split at h
  · rename_i hselect
    cases h
    exact .router (mem_descendants_self _) hi hselect
  · rename_i hselect
    split at h
    · cases h
    · rename_i hfind
      cases h
      refine .unknown (mem_descendants_self _) hi hselect fun c hc hname => ?_
      exact List.find?_eq_none.1 hfind c hc (beq_iff_eq.2 hname)

theorem error_of_evaluate {name : String} {test : StepInput → Except String Bool}
    {input : StepInput} {fault : Fault} (h : evaluate name test input = .error fault) :
    ∃ message, test input = .error message ∧ fault = .evaluator name message := by
  unfold evaluate at h
  cases htest : test input with
  | error message =>
    rw [htest] at h
    exact ⟨message, rfl, (Except.error.inj h).symm⟩
  | ok holds =>
    rw [htest] at h
    cases h

mutual

private theorem excused_perform (input : StepInput) : (n : Node) → Fit [n] →
    Excused ctx (raised [n]) ([.entered n.name input]) (perform input ctx n)
  | .step s, h => s.excused_execute (h.mild s (by simp [descendants])) input
  | .steps name description children, h => by
    have hin (m : Node) (hm : m ∈ descendants children) :
        m ∈ descendants [steps name description children] := mem_descendants_children hm
    unfold perform
    refine .bind ?_ fun _ => .pure _
    exact (excused_among hin (excused_runSequence children (h.mono hin) input)).later
      (List.nil_subset _)
  | .condition name description test children, h => by
    have hin (m : Node) (hm : m ∈ descendants children) :
        m ∈ descendants [condition name description test children] := mem_descendants_children hm
    unfold perform
    refine .bind (.ofResult fun fault hf => ?_) fun holds => .silent (RunContext.silent_emit ctx _)
      fun _ => ?_
    · obtain ⟨message, htest, rfl⟩ := error_of_evaluate hf
      exact .condition (mem_descendants_self _) (List.mem_singleton_self _) htest
    · split
      · refine .bind ?_ fun _ => .pure _
        exact (excused_among hin (excused_runSequence children (h.mono hin) input)).later
          (List.nil_subset _)
      · exact .pure _
  | .loop name description maxIterations ends children, h => by
    have hin (m : Node) (hm : m ∈ descendants children) :
        m ∈ descendants [loop name description maxIterations ends children] :=
      mem_descendants_children hm
    have hm : maxIterations ≠ 0 := fun hzero => by
      have hshape := h.shape _ (mem_descendants_self _)
      simp [shapeFault?, hzero] at hshape
    unfold perform
    refine .bind (Loop.excused_run (fun input => ?_) (fun outputs fault hf => ?_) hm input)
      fun _ => .pure _
    · exact (excused_among hin (excused_runSequence children (h.mono hin) input)).later
        (List.nil_subset _)
    · cases ends with
      | none => cases hf
      | some ends =>
        obtain ⟨message, hends, rfl⟩ := Loop.error_of_converged hf
        exact .loop (mem_descendants_self _) (List.mem_singleton_self _) hends
  | .parallel name description children, h => by
    have hin (m : Node) (hm : m ∈ descendants children) :
        m ∈ descendants [parallel name description children] := mem_descendants_children hm
    unfold perform
    refine .silent (RunContext.silent_emit ctx _) fun _ => ?_
    have hall : Fiber.Obeys ctx.watch (Fiber.all (runAll input ctx children))
        ((raised [parallel name description children]).accountAll [.entered name input]) :=
      Excused.all fun p hp => (excused_runAll input children (h.mono hin) p hp).mono
        fun u q hu fault hq =>
        (hu fault hq).imp id (Raised.mono hin (List.subset_cons_self ..))
    refine .lift hall fun t results hr => ?_
    have hfaults := hr results rfl
    cases hj : Join.result name (children.map Node.name) results with
    | error fault =>
      refine Fiber.Obeys.of_done fun fault' hf => ?_
      cases hf
      exact hfaults fault (Join.mem_of_result hj)
    | ok output =>
      have hrest : Excused ctx (raised [parallel name description children])
          ([.entered name input] ++ t.reduceOption) (do
            ctx.emit (.parallelCompleted name output.success)
            return output) :=
        .silent (RunContext.silent_emit ctx _) fun _ => .pure output
      exact hrest.mono fun u q hu => Causes.account_after hu
  | .router name description select choices, h => by
    have hin (m : Node) (hm : m ∈ descendants choices) :
        m ∈ descendants [router name description select choices] := mem_descendants_children hm
    unfold perform
    cases hchoice : choose name select choices input with
    | error fault => exact .throw (raised_of_choose hchoice (List.mem_singleton_self _))
    | ok choice =>
      refine .silent (RunContext.silent_emit ctx _) fun _ => ?_
      exact (excused_among hin (excused_runChoice input choice.name choices (h.mono hin)
        ⟨choice, mem_of_choose hchoice, rfl⟩)).later (List.nil_subset _)

private theorem excused_runSequence : (nodes : List Node) → Fit nodes → (input : StepInput) →
    Excused ctx (raised nodes) [] (runSequence ctx nodes input)
  | [], _, input => .pure _
  | n :: rest, h, input => by
    have hhead (m : Node) (hm : m ∈ descendants [n]) : m ∈ descendants (n :: rest) :=
      mem_descendants_of_mem (List.mem_cons_self ..) hm
    have htail (m : Node) (hm : m ∈ descendants rest) : m ∈ descendants (n :: rest) :=
      mem_descendants_tail hm
    unfold runSequence
    refine .bind (excused_reported (excused_among hhead (excused_perform input n (h.mono hhead))))
      fun output => ?_
    split
    · exact .pure _
    · refine .bind ?_ fun _ => .pure _
      exact excused_among htail (excused_runSequence rest (h.mono htail) _)

private theorem excused_runAll (input : StepInput) : (children : List Node) → Fit children →
    ∀ p ∈ runAll input ctx children, Fiber.Obeys ctx.watch p ((raised children).account [])
  | [], _ => by simp [runAll]
  | n :: rest, h => by
    have hhead (m : Node) (hm : m ∈ descendants [n]) : m ∈ descendants (n :: rest) :=
      mem_descendants_of_mem (List.mem_cons_self ..) hm
    have htail (m : Node) (hm : m ∈ descendants rest) : m ∈ descendants (n :: rest) :=
      mem_descendants_tail hm
    intro p hp
    rcases List.mem_cons.1 hp with rfl | hp
    · exact excused_reported (excused_among hhead (excused_perform input n (h.mono hhead)))
    · exact (excused_runAll input rest (h.mono htail) p hp).mono fun u q hu fault hq =>
        (hu fault hq).imp id (Raised.mono htail (List.Subset.refl _))

private theorem excused_runChoice (input : StepInput) (name : String) : (choices : List Node) →
    Fit choices → (∃ c ∈ choices, c.name = name) →
    Excused ctx (raised choices) [] (runChoice input ctx name choices)
  | [], _, hc => by simp at hc
  | n :: rest, h, hc => by
    have hhead (m : Node) (hm : m ∈ descendants [n]) : m ∈ descendants (n :: rest) :=
      mem_descendants_of_mem (List.mem_cons_self ..) hm
    have htail (m : Node) (hm : m ∈ descendants rest) : m ∈ descendants (n :: rest) :=
      mem_descendants_tail hm
    unfold runChoice
    split
    · exact excused_reported (excused_among hhead (excused_perform input n (h.mono hhead)))
    · rename_i hne
      refine excused_among htail (excused_runChoice input name rest (h.mono htail) ?_)
      obtain ⟨c, hmem, hname⟩ := hc
      rcases List.mem_cons.1 hmem with rfl | hmem
      · exact absurd (beq_iff_eq.2 hname) hne
      · exact ⟨c, hmem, hname⟩

end

/-- The fault of a node is that of a cancelled run, or was raised by a callback of the tree. -/
theorem excused_execute {n : Node} (h : Fit [n]) (input : StepInput) :
    Excused ctx (raised [n]) before (n.execute input ctx) := by
  have hfirst : Excused ctx (raised [n]) [] (n.execute input ctx) :=
    excused_reported (excused_perform input n h)
  exact hfirst.later (List.nil_subset _)

end Node

end WorkflowEngine
