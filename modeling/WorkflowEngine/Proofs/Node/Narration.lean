import WorkflowEngine.Proofs.Node.Tales

/-!
# Narration

The code of a node tells its tale, whatever its executors do, whatever room the feed has and in
whatever order the fibers get their turns, as long as nobody cancels the run. Main statement:
`execute` obeys `tale`, the tales of parallel children being interleaved.
-/

namespace WorkflowEngine

open TaskAccount Tale Outlet

variable {o : Outlet} {ctx : RunContext} (hc : o.Serves ctx)

include hc

theorem Outlet.Serves.note {α : Type} (h : Happening) {f : Unit → RunTask α} {B : Tale α}
    (hf : o.Obeys (f ()).run B) :
    o.Obeys (liftM (ctx.note h) >>= f).run ((Tale.note h).bind fun _ => B) :=
  .seq (.lift (.note hc h) (fun t ht => by cases ht; exact .idle)
    fun t a ht => by cases ht; exact .noted) fun _ => hf

theorem Outlet.Serves.say {α : Type} (kind : EventKind) {f : Unit → RunTask α} {B : Tale α}
    (hf : o.Obeys (f ()).run B) :
    o.Obeys (liftM (ctx.emit kind) >>= f).run ((Tale.say kind).bind fun _ => B) :=
  .seq (.lift (.emit hc kind)
    (fun t ht => by
      cases ht with
      | idle => exact .idle
      | published h => exact .published h)
    fun t a ht => by
      cases ht with
      | delivered h => exact .delivered h) fun _ => hf

namespace Step

omit hc in
/-- What is passed on may come to any end, unless a content is on its way. -/
private theorem passing_any {s : Step} {α β : Type} {t : List Telling}
    {q : Option (Except Fault α)} {r : Option (Except Fault β)} (h : s.passing t q)
    (hr : q = none → r = none) : s.passing t r := by
  induction h with
  | idle => exact .idle
  | published h =>
    obtain rfl := hr rfl
    exact .published h
  | delivered h _ ih => exact .delivered h (ih hr)

theorem obeys_forward (s : Step) (output : StepOutput) :
    o.Obeys (s.forward ctx output)
      fun t r => t = [] ∧ r = some () ∨ ∃ delta, saying (.stepContentDelta s.name delta) () t r := by
  unfold forward
  split
  · exact (Obeys.emit hc _).mono fun t r h => .inr ⟨_, h⟩
  · exact .done (.inl ⟨rfl, rfl⟩)

private theorem obeys_stream {α : Type} (s : Step) (script : Script StepOutput α) :
    o.Obeys (script.run ctx (s.forward ctx)) s.passing := by
  refine .script (obeys_forward hc s) (fun r => .idle) (fun t ht => ?_) (fun t u r ht hu => ?_) script
  · rcases ht with ⟨-, hr⟩ | ⟨delta, hd⟩
    · cases hr
    · cases hd with
      | idle => exact .idle
      | published h => exact .published h
  · rcases ht with ⟨rfl, -⟩ | ⟨delta, hd⟩
    · exact hu
    · cases hd with
      | delivered h => exact .delivered h hu

theorem tells_invoke (s : Step) (input : StepInput) :
    o.Obeys (s.invoke input ctx).run (s.calling input) := by
  have hstream : ctx.isStreaming = true := by simp [RunContext.isStreaming, hc.feed]
  unfold invoke calling
  refine hc.note _ ?_
  rw [if_pos hstream]
  refine (Obeys.seq (T := s.passing) (C := fun output => ofResult (output.elim
    (.error (.executor s.name "executor stream ended without a final output")) .ok))
    (obeys_stream hc s _) fun output => ?_).mono fun t r ht => ?_
  · cases output with
    | some output => exact .done (ofResult_some _)
    | none => exact .done (ofResult_some _)
  · cases ht with
    | under h => exact passing_any h fun _ => rfl
    | fault h => exact passing_any h nofun
    | next h hr =>
      obtain ⟨rfl, -⟩ := hr
      rw [List.append_nil]
      exact passing_any h nofun

theorem tells_limited (s : Step) (input : StepInput) (limit : Option Nat) :
    o.Obeys (s.limited limit (s.invoke input ctx)).run (s.trying input limit) := by
  unfold limited
  cases limit with
  | none => exact tells_invoke hc s input
  | some ms =>
    refine .quietTask .time fun now => ?_
    rw [RunTask.run_lift_bind]
    refine (Obeys.within (tells_invoke hc s input)).bind
      (C := fun r t q => t = [] ∧ q = some (r.getD (.error (.timeout s.name ms)))) (fun r => ?_)
      (fun t ht => ⟨none, ht, rfl⟩) fun t r u q ht hu => ?_
    · cases r <;> exact .done ⟨rfl, rfl⟩
    · obtain ⟨rfl, rfl⟩ := hu
      exact ⟨some r, by simpa using ht, rfl⟩

theorem tells_attempt (s : Step) (input : StepInput) (limit : Option Nat) :
    o.Obeys (s.attempt input ctx limit).run (s.trying input limit) := by
  unfold attempt
  rw [RunTask.run_lift_bind]
  refine (Obeys.cancellable hc (tells_limited hc s input limit)).bind
    (C := fun r t q => t = [] ∧ q = some (r.getD (.error .cancelled))) (fun r => ?_)
    (fun t ht => ?_) fun t r u q ht hu => ?_
  · cases r <;> exact .done ⟨rfl, rfl⟩
  · obtain ⟨_ | q, hq, hr⟩ := ht <;> cases hr
    exact hq
  · obtain ⟨rfl, rfl⟩ := hu
    obtain ⟨_ | q, hq, hr⟩ := ht <;> cases hr
    simpa using hq

private theorem tells_once {s : Step} {input : StepInput} {limit : Option Nat}
    {otherwise : String → RunTask (Except String StepOutput)}
    {B : String → Tale (Except String StepOutput)}
    (ho : ∀ message, o.Obeys (otherwise message).run (B message)) :
    o.Obeys (attempts.once s input ctx limit otherwise).run
      (attempting.once s input limit B) := by
  unfold attempts.once attempting.once
  refine .checkCancelled hc (.seq (.result (tells_attempt hc s input limit)) fun r => ?_)
  cases r with
  | ok output => exact .ret
  | error fault =>
    dsimp only
    split
    · exact .done (ofResult_some _)
    · exact ho _

theorem tells_attempts (s : Step) (input : StepInput) (limit : Option Nat) (retries : Nat) :
    o.Obeys (s.attempts input ctx limit retries).run (s.attempting input limit retries) := by
  induction retries with
  | zero => exact tells_once hc fun message => .ret
  | succ retries ih => exact tells_once hc fun _ => ih

theorem tells_execute (s : Step) (input : StepInput) :
    o.Obeys (s.execute input ctx).run (s.tale ctx.stepDefaults input) := by
  unfold execute
  refine .quietTask .time fun started => .seq (tells_attempts hc s input _ _) fun result => ?_
  refine .quietTask .time fun ended => ?_
  cases result <;> exact .done (.done (ended - started))
end Step

namespace Loop

section Iteration

variable {name : String} {maxIterations : Nat}
  {ends : Option (List StepOutput → Except String Bool)} {body : StepInput → RunTask Sequence}
  {B : StepInput → Tale Sequence}

private theorem tells_conclude {isLast : Bool} {done : List StepOutput}
    {otherwise : StepOutput → List StepOutput → StepInput → RunTask LoopResult}
    {C : StepOutput → List StepOutput → StepInput → Tale LoopResult}
    (ho : ∀ output done next, o.Obeys (otherwise output done next).run (C output done next))
    (output : StepOutput) (next : StepInput) :
    o.Obeys (turn.conclude name ends ctx isLast done otherwise (done.length + 1) output next).run
      (turning.conclude name ends isLast done C output next) := by
  unfold turn.conclude turning.conclude
  refine .seq .ofResult fun converged => hc.say _ ?_
  cases converged with
  | true => exact .ret
  | false => exact ho _ _ _

theorem tells_turn {isLast : Bool} {done : List StepOutput} {input : StepInput}
    {otherwise : StepOutput → List StepOutput → StepInput → RunTask LoopResult}
    {C : StepOutput → List StepOutput → StepInput → Tale LoopResult}
    (hb : ∀ input, o.Obeys (body input).run (B input))
    (ho : ∀ output done next, o.Obeys (otherwise output done next).run (C output done next)) :
    o.Obeys (turn name maxIterations ends ctx body isLast done input otherwise).run
      (turning name maxIterations ends B isLast done input C) := by
  unfold turn turning
  refine .checkCancelled hc (hc.say _ (.seq (hb input) fun q => ?_))
  cases q with
  | halted output => exact hc.say _ .ret
  | completed output next produced => exact tells_conclude hc ho _ _
  | empty next => exact tells_conclude hc ho _ _

theorem tells_iterate (hb : ∀ input, o.Obeys (body input).run (B input)) (left : Nat)
    (done : List StepOutput) (input : StepInput) :
    o.Obeys (iterate name maxIterations ends ctx body left done input).run
      (iterating name maxIterations ends B left done input) := by
  induction left generalizing done input with
  | zero => exact tells_turn hc hb fun _ _ _ => .ret
  | succ left ih => exact tells_turn hc hb fun _ _ _ => ih _ _

theorem tells_run (hb : ∀ input, o.Obeys (body input).run (B input)) (input : StepInput) :
    o.Obeys (run name maxIterations ends ctx body input).run
      (tale name maxIterations ends B input) := by
  cases maxIterations with
  | zero => exact .done (ofResult_some _)
  | succ left => exact tells_iterate hc hb left [] input

end Iteration

end Loop

namespace Node

theorem tells_reported {n : Node} {input : StepInput} {work : RunTask StepOutput}
    {B : Tale StepOutput} (hw : o.Obeys work.run B) :
    o.Obeys (n.reported input ctx work).run (n.block input B) := by
  unfold reported block
  refine .checkCancelled hc (hc.note _ (hc.say _ ?_))
  refine .quietTask .time fun started => .seq hw fun output => .quietTask .time fun ended => ?_
  have hgave (output : StepOutput) : o.Obeys
      (do
        ctx.note (.gave n.name output)
        ctx.emit (.stepCompleted n.name output.success output.content output.error)
        return output : RunTask StepOutput).run
      ((Tale.note (.gave n.name output)).bind fun _ =>
        (Tale.say (.stepCompleted n.name output.success output.content output.error)).bind fun _ =>
          ret output) :=
    hc.note _ (hc.say _ .ret)
  have hdated := timed.done (f := n.dated output) (ended - started)
  exact (hgave _).mono fun t r ht => .next hdated ht

mutual

private theorem tells_perform (input : StepInput) : (n : Node) →
    o.Obeys (perform input ctx n).run (taleInside .together ctx.stepDefaults input n)
  | .step s => s.tells_execute hc input
  | .steps name _ children => by
    unfold perform taleInside
    exact .map (tells_runSequence children input)
  | .condition name _ test children => by
    unfold perform taleInside
    refine .seq .ofResult fun holds => hc.say _ ?_
    cases holds with
    | true => exact .map (tells_runSequence children input)
    | false => exact .ret
  | .loop name _ maxIterations ends children => by
    unfold perform taleInside
    exact .map (Loop.tells_run hc (tells_runSequence children) input)
  | .parallel name _ children => by
    unfold perform taleInside
    refine hc.say _ (.seq (.lift (.all (tells_runAll input children)) ?_ ?_) fun results => ?_)
    · exact fun t ht => ⟨none, ht, rfl⟩
    · exact fun t results ht => ⟨_, ht, rfl⟩
    · exact .seq .ofResult fun output => hc.say _ .ret
  | .router name _ select choices => by
    unfold perform taleInside
    exact .seq .ofResult fun choice => hc.say _ (tells_runChoice input choice.name choices)

theorem tells_runSequence : (nodes : List Node) → (input : StepInput) →
    o.Obeys (runSequence ctx nodes input).run
      (taleInTurn .together ctx.stepDefaults nodes input)
  | [], input => .ret
  | n :: rest, input => by
    unfold runSequence taleInTurn
    refine .seq (tells_reported hc (tells_perform input n)) fun output => ?_
    split
    · exact .ret
    · exact .map (tells_runSequence rest _)

private theorem tells_runAll (input : StepInput) : (children : List Node) →
    List.Forall₂ (fun p A => o.Obeys p A) (runAll input ctx children)
      (taleOfEach .together ctx.stepDefaults input children)
  | [] => .nil
  | n :: rest => .cons (tells_reported hc (tells_perform input n)) (tells_runAll input rest)

private theorem tells_runChoice (input : StepInput) (name : String) : (choices : List Node) →
    o.Obeys (runChoice input ctx name choices).run
      (taleOfChoice .together ctx.stepDefaults input name choices)
  | [] => .done (ofResult_some _)
  | n :: rest => by
    unfold runChoice taleOfChoice
    split
    · exact tells_reported hc (tells_perform input n)
    · exact tells_runChoice input name rest

end

/-- A node tells its tale, whatever others do meanwhile. -/
theorem tells_tale (n : Node) (input : StepInput) :
    o.Obeys (n.execute input ctx).run (n.tale .together ctx.stepDefaults input) :=
  tells_reported hc (tells_perform hc input n)

end Node

end WorkflowEngine
