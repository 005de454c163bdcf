import WorkflowEngine.Executor.Ready
import WorkflowEngine.Proofs.Fiber.Evolutions
import WorkflowEngine.Proofs.Node.Media
import WorkflowEngine.Proofs.Run.Tasks

/-!
# Parallel nodes

What a parallel node makes of its children. Main statement: whatever way its children end and in
whatever order, all of them have come to their ends before the node joins their results; a cancelled
child decides, or else the first fault in the order of declaration, and without a fault the output
tells of every child under its name.
-/

namespace WorkflowEngine

open Relation
open Fiber (Evolves Together evolves_all)

namespace Join

variable {name : String} {names : List String} {results : List (Except Fault StepOutput)}
  {os : List StepOutput}

/-- The child and the error of every output that failed, in the order of declaration. -/
def complaints (names : List String) (os : List StepOutput) : List String :=
  ((names.zip os).filter fun child => !child.2.success).map fun child =>
    child.1 ++ ": " ++ child.2.error.getD "failed"

/-- The output of a parallel node all of whose children gave one. -/
structure Gathers (name : String) (names : List String) (os : List StepOutput) (o : StepOutput) :
    Prop where
  stamp : o.stepName = name ∧ o.executorKind = .parallel ∧ o.executorName = name
  entries : ∃ m, o.children = some m ∧ m.keys.Perm names ∧
    ∀ child output, (child, output) ∈ names.zip os → m.get? child = some output
  success : o.success = os.all StepOutput.success
  stop : o.stop = os.any StepOutput.stop
  content : o.content = none
  images : o.media.images = os.flatMap (·.media.images)
  videos : o.media.videos = os.flatMap (·.media.videos)
  audio : o.media.audio = os.flatMap (·.media.audio)
  error : o.error = if os.all StepOutput.success then none
    else some ("Parallel " ++ name ++ " failed: " ++ String.intercalate "; " (complaints names os))

/-- What the results of all children decide. -/
inductive Decides (name : String) (names : List String) (results : List (Except Fault StepOutput)) :
    Except Fault StepOutput → Prop
  | cancelled (h : .error .cancelled ∈ results) : Decides name names results (.error .cancelled)
  | fault {before after : List (Except Fault StepOutput)} {fault : Fault}
      (hc : .error .cancelled ∉ results) (h : results = before ++ .error fault :: after)
      (hb : ∀ r ∈ before, ∃ o, r = .ok o) : Decides name names results (.error fault)
  | output {os : List StepOutput} {o : StepOutput} (h : results = os.map .ok)
      (ho : Gathers name names os o) : Decides name names results (.ok o)

private theorem any_isCancelled {results : List (Except Fault StepOutput)} :
    results.any fault?.isCancelled = true ↔ .error .cancelled ∈ results := by
  have hcancelled (r : Except Fault StepOutput) :
      fault?.isCancelled r = true ↔ r = .error .cancelled := by
    unfold fault?.isCancelled
    split
    · simp
    · rename_i hne
      simpa using hne
  simp [hcancelled]

/-- The fault that decides is a cancellation, or the first one of all. -/
theorem fault?_eq_some {fault : Fault} (h : fault? results = some fault) :
    fault = .cancelled ∧ .error .cancelled ∈ results ∨
    .error .cancelled ∉ results ∧ ∃ before after, results = before ++ .error fault :: after ∧
      ∀ r ∈ before, ∃ o, r = .ok o := by
  induction results with
  | nil => cases h
  | cons r rest ih =>
    cases r with
    | ok o =>
      rcases ih h with ⟨rfl, hmem⟩ | ⟨hc, before, after, rfl, hb⟩
      · exact .inl ⟨rfl, List.mem_cons_of_mem _ hmem⟩
      · right
        refine ⟨by simpa using hc, .ok o :: before, after, rfl, ?_⟩
        simpa using hb
    | error first =>
      rw [fault?] at h
      split at h
      · rename_i hcancelled
        obtain rfl := Option.some.inj h
        exact .inl ⟨hcancelled, by simp [hcancelled]⟩
      · rename_i hne
        split at h
        · rename_i hany
          obtain rfl := Option.some.inj h
          exact .inl ⟨rfl, List.mem_cons_of_mem _ (any_isCancelled.1 hany)⟩
        · rename_i hany
          obtain rfl := Option.some.inj h
          right
          refine ⟨?_, [], rest, rfl, by simp⟩
          intro hmem
          rcases List.mem_cons.1 hmem with heq | hmem
          · exact hne (by cases heq; rfl)
          · exact hany (any_isCancelled.2 hmem)

section Outputs

variable (hn : names.Nodup) (hlen : os.length = names.length)

include hn hlen

private theorem all_values : (outputs names (os.map .ok)).values.all StepOutput.success =
    os.all StepOutput.success := by
  rw [Bool.eq_iff_iff]
  simp only [List.all_eq_true, mem_values_outputs hn hlen]

private theorem any_values : (outputs names (os.map .ok)).values.any StepOutput.stop =
    os.any StepOutput.stop := by
  rw [Bool.eq_iff_iff]
  simp only [List.any_eq_true, mem_values_outputs hn hlen]

end Outputs

private theorem failures_of_get? {m : KeyMap StepOutput} (hlen : os.length = names.length)
    (h : ∀ child output, (child, output) ∈ names.zip os → m.get? child = some output) :
    failures m names = complaints names os := by
  induction names generalizing os with
  | nil => simp [failures, complaints]
  | cons child rest ih =>
    cases os with
    | nil => cases hlen
    | cons o os =>
      have hrest : failures m rest = complaints rest os := by
        apply ih (Nat.succ.inj hlen)
        intro child output hmem
        exact h child output (List.mem_cons_of_mem _ hmem)
      have hget : m.get? child = some o := h child o (by simp)
      unfold failures complaints at hrest ⊢
      cases hs : o.success <;> simp [hget, hs, hrest]

private theorem kinds_ofOutputs (os : List StepOutput) :
    (MediaSet.ofOutputs os).images = os.flatMap (·.media.images) ∧
    (MediaSet.ofOutputs os).videos = os.flatMap (·.media.videos) ∧
    (MediaSet.ofOutputs os).audio = os.flatMap (·.media.audio) := by
  induction os with
  | nil => simp [MediaSet.ofOutputs]
  | cons o os ih => simp [MediaSet.ofOutputs, ih]

theorem gathers_output (hn : names.Nodup) (hlen : os.length = names.length) :
    Gathers name names os (output name names (outputs names (os.map .ok))) := by
  have hget (child : String) (o : StepOutput) (h : (child, o) ∈ names.zip os) :
      (outputs names (os.map .ok)).get? child = some o := get?_outputs hn h
  have hmedia : media (outputs names (os.map .ok)) names = .ofOutputs os := media_of_get? hlen hget
  obtain ⟨himages, hvideos, haudio⟩ := kinds_ofOutputs os
  refine ⟨⟨rfl, rfl, rfl⟩, ⟨_, rfl, perm_keys_outputs hn hlen, hget⟩, all_values hn hlen,
    any_values hn hlen, rfl, ?_, ?_, ?_, ?_⟩
  · rw [← himages, ← hmedia]
    rfl
  · rw [← hvideos, ← hmedia]
    rfl
  · rw [← haudio, ← hmedia]
    rfl
  · simp only [output, all_values hn hlen, failures_of_get? hlen hget]

/-- The results of all children are joined as they decide. -/
theorem decides_result (hn : names.Nodup) (hlen : results.length = names.length) :
    Decides name names results (result name names results) := by
  unfold result
  cases hf : fault? results with
  | some fault =>
    rcases fault?_eq_some hf with ⟨rfl, hmem⟩ | ⟨hc, before, after, h, hb⟩
    · exact .cancelled hmem
    · exact .fault hc h hb
  | none =>
    obtain ⟨os, rfl⟩ := eq_map_ok_of_fault? hf
    exact .output rfl (gathers_output hn (by simpa using hlen))

end Join

namespace Node

variable {ctx : RunContext} {others : Engine → Engine → Prop} {e e' : Engine} {input : StepInput}
  {name : String} {description : Option String} {children : List Node}

/-- What is left of a parallel node whose children have come to their ends: nothing after a fault;
an output is told of. -/
def Concludes (others : Engine → Engine → Prop) (ctx : RunContext) (name : String) (e : Engine) :
    Except Fault StepOutput → Engine → Prop
  | .error _, e' => ReflTransGen others e e'
  | .ok output, e' =>
    Evolves others (ctx.emit (.parallelCompleted name output.success)) e (.done ()) e'

/-- The task of a parallel node once the results of its children are joined. -/
private def conclusion (ctx : RunContext) (name : String) :
    Except Fault StepOutput → Fiber Engine (Except Fault StepOutput)
  | .error fault => .done (.error fault)
  | .ok output =>
    (ctx.emit (.parallelCompleted name output.success)).bind fun _ => .done (.ok output)

private theorem run_parallel : (perform input ctx (parallel name description children)).run =
    (ctx.emit (.parallelStarted name (children.map Node.name))).bind fun _ =>
      (Fiber.all (children.map fun child => (child.execute input ctx).run)).bind fun results =>
        conclusion ctx name (Join.result name (children.map Node.name) results) := by
  rw [perform]
  simp only [RunTask.run_lift_bind, runAll_eq_map]
  congr 1
  funext _
  congr 1
  funext results
  rw [RunTask.run_bind]
  cases Join.result name (children.map Node.name) results with
  | error fault => rfl
  | ok output => exact RunTask.run_lift_bind _ _

private theorem evolves_conclusion {q r : Except Fault StepOutput} :
    Evolves others (conclusion ctx name q) e (.done r) e' ↔
      r = q ∧ Concludes others ctx name e q e' := by
  constructor
  · intro h
    cases q with
    | error fault =>
      obtain ⟨hr, ho⟩ := Fiber.evolves_of_done h
      exact ⟨Fiber.done.inj hr, ho⟩
    | ok output =>
      obtain ⟨_, t, hemit, hrest⟩ := Fiber.done_of_bind h
      obtain ⟨hr, ho⟩ := Fiber.evolves_of_done hrest
      exact ⟨Fiber.done.inj hr, hemit.still ho⟩
  · rintro ⟨rfl, h⟩
    cases r with
    | error fault => exact .still .refl h
    | ok output => exact h.bind _

/-- Outside of streaming mode nothing keeps a node from telling of its end. -/
private theorem exists_concludes (hf : ctx.feed = none) (q : Except Fault StepOutput) :
    ∃ e', Concludes others ctx name e q e' := by
  cases q with
  | error fault => exact ⟨e, .refl⟩
  | ok output =>
    have hemit : ∃ e', (ctx.emit (.parallelCompleted name output.success)).poll e =
        .done () e' := by
      unfold RunContext.emit
      rw [hf]
      split
      · exact ⟨_, rfl⟩
      · exact ⟨_, rfl⟩
    obtain ⟨e', he'⟩ := hemit
    exact ⟨e', Fiber.evolves_of_poll_done he'⟩

/-- The law of parallel nodes: a node whose children have different names returns only when all of
them have come to their ends, each in its own time, with what their results decide; and once they
have, it returns that. -/
theorem parallel_law (hn : (children.map Node.name).Nodup) :
    (∀ r e', Evolves others (perform input ctx (parallel name description children)).run e
        (.done r) e' →
      ∃ e₀ results e₁,
        Evolves others (ctx.emit (.parallelStarted name (children.map Node.name))) e (.done ()) e₀ ∧
        Together others (children.map fun child => (child.execute input ctx).run) e₀
          (results.map .done) e₁ ∧
        Join.Decides name (children.map Node.name) results r ∧ Concludes others ctx name e₁ r e') ∧
    ∀ e₀ results e₁,
      Evolves others (ctx.emit (.parallelStarted name (children.map Node.name))) e (.done ()) e₀ →
      Together others (children.map fun child => (child.execute input ctx).run) e₀
        (results.map .done) e₁ →
      ∃ r, Join.Decides name (children.map Node.name) results r ∧
        (ctx.feed = none → ∃ e', Concludes others ctx name e₁ r e') ∧
        ∀ e', Concludes others ctx name e₁ r e' →
          Evolves others (perform input ctx (parallel name description children)).run e (.done r) e' := by
  have hlen {results : List (Except Fault StepOutput)} {e₀ e₁ : Engine}
      (h : Together others (children.map fun child => (child.execute input ctx).run) e₀
        (results.map .done) e₁) : results.length = (children.map Node.name).length := by
    simpa using h.length
  rw [run_parallel]
  constructor
  · intro r e' h
    obtain ⟨_, e₀, hstart, h⟩ := Fiber.done_of_bind h
    obtain ⟨results, e₁, hall, hrest⟩ := Fiber.done_of_bind h
    have htogether := evolves_all.1 hall
    obtain ⟨rfl, hend⟩ := evolves_conclusion.1 hrest
    exact ⟨e₀, results, e₁, hstart, htogether, Join.decides_result hn (hlen htogether), hend⟩
  · intro e₀ results e₁ hstart htogether
    refine ⟨_, Join.decides_result hn (hlen htogether), fun hf => exists_concludes hf _, ?_⟩
    intro e' hend
    have hall : Evolves others _ e₀ (.done results) e₁ := evolves_all.2 htogether
    exact (hstart.bind _).trans ((hall.bind _).trans (evolves_conclusion.2 ⟨rfl, hend⟩))

private def inspector (name message : String) : Node :=
  step { name, maxRetries := some 0, executor := Executor.failing "inspect" message }

/-- The names of the children are not in the order of their keys. -/
private def inspectors : List Node :=
  [inspector "roof" "leaks", step { name := "garden", executor := .echo "look" .function },
    inspector "cellar" "is wet"]

private def visiting : RunContext :=
  { sessionId := "session", runId := "run", state := ⟨0⟩, token := ⟨0⟩ }

private def house : Engine := { start := ⟨0, 0⟩, states := ⟨[∅]⟩, tokens := ⟨[{}]⟩ }

private theorem poll_inspectors :
    (match (perform {} visiting (parallel "house" none inspectors)).run.poll house with
    | .done (.ok output) _ =>
      output.error == some "Parallel house failed: roof: leaks; cellar: is wet"
    | _ => false) = true := by
  decide +kernel

/-- All three have come to their ends, and the failures stand in the order of declaration. -/
theorem parallel_law_inspectors : ∃ output os e e₁ e',
    Evolves (fun _ _ => False) (perform {} visiting (parallel "house" none inspectors)).run house
      (.done (.ok output)) e' ∧
    Together (fun _ _ => False) (inspectors.map fun child => (child.execute {} visiting).run) e
      ((os.map .ok).map .done) e₁ ∧
    os.length = 3 ∧ Join.Gathers "house" ["roof", "garden", "cellar"] os output ∧
    output.error = some "Parallel house failed: roof: leaks; cellar: is wet" := by
  have hends := poll_inspectors
  cases hpoll : (perform {} visiting (parallel "house" none inspectors)).run.poll house with
  | waiting p e | aborted message e =>
    rw [hpoll] at hends
    cases hends
  | done r e' =>
    rw [hpoll] at hends
    cases r with
    | error fault => cases hends
    | ok output =>
      have h : Evolves (fun _ _ => False)
          (perform {} visiting (parallel "house" none inspectors)).run house (.done (.ok output)) e' :=
        Fiber.evolves_of_poll_done hpoll
      have hn : (inspectors.map Node.name).Nodup := by decide
      obtain ⟨e, results, e₁, -, htogether, hdecides, -⟩ := (parallel_law hn).1 _ _ h
      cases hdecides with
      | @output os _ heq hgathers =>
        subst heq
        have hlength : os.length = 3 := by simpa [inspectors] using htogether.length
        exact ⟨output, os, e, e₁, e', h, htogether, hlength, hgathers, by simpa using hends⟩

end Node

end WorkflowEngine
