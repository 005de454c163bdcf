import WorkflowEngine.Definition.Attempt
import WorkflowEngine.Proofs.Run.Values
import WorkflowEngine.Step.Execution

/-!
# Streams of items

Executors that are called for a stream give items one after another: partial outputs, final outputs and
faults, in any order and as many as they like. Main statement: what a step makes of a stream is its first
final output or its first fault, whatever would come after.
-/

namespace WorkflowEngine

namespace Script

/-- An item that an executor gives in a stream. -/
inductive Item where
  | part (output : StepOutput)
  | final (output : StepOutput)
  | fault (fault : Fault)

/-- A stream of items up to the first that ends it. -/
def upToEnd : Script Item Unit → Script StepOutput (Option StepOutput)
  | finish _ => .finish none
  | fail fault => .fail fault
  | look next => .look fun state => (next state).upToEnd
  | change f next => .change f next.upToEnd
  | sleep ms next => .sleep ms next.upToEnd
  | cancel next => .cancel next.upToEnd
  | cancelled next => .cancelled fun b => (next b).upToEnd
  | emit (.part output) next => .emit output next.upToEnd
  | emit (.final output) _ => .finish (some output)
  | emit (.fault fault) _ => .fail fault
  | count tally next => .count tally fun calls => (next calls).upToEnd
  | abort message => .abort message

/-- Every stream of an executor is one of items. -/
theorem exists_upToEnd (script : Script StepOutput (Option StepOutput)) :
    ∃ items : Script Item Unit, items.upToEnd = script := by
  induction script with
  | finish output =>
    cases output with
    | some output => exact ⟨.emit (.final output) (.finish ()), rfl⟩
    | none => exact ⟨.finish (), rfl⟩
  | fail fault => exact ⟨.fail fault, rfl⟩
  | look next ih =>
    choose items h using ih
    exact ⟨.look items, by simp only [upToEnd, h]⟩
  | change f next ih =>
    obtain ⟨items, rfl⟩ := ih
    exact ⟨.change f items, rfl⟩
  | sleep ms next ih =>
    obtain ⟨items, rfl⟩ := ih
    exact ⟨.sleep ms items, rfl⟩
  | cancel next ih =>
    obtain ⟨items, rfl⟩ := ih
    exact ⟨.cancel items, rfl⟩
  | cancelled next ih =>
    choose items h using ih
    exact ⟨.cancelled items, by simp only [upToEnd, h]⟩
  | emit output next ih =>
    obtain ⟨items, rfl⟩ := ih
    exact ⟨.emit (.part output) items, rfl⟩
  | count tally next ih =>
    choose items h using ih
    exact ⟨.count tally items, by simp only [upToEnd, h]⟩
  | abort message => exact ⟨.abort message, rfl⟩

/-- What a stream of items comes to for a step: its first final output or fault on some way through it, or
a fault of the executor when it has none. Nothing is said of what follows. -/
inductive Answers (step : String) : Script Item Unit → Except Fault StepOutput → Prop
  | final {output : StepOutput} {rest : Script Item Unit} :
      Answers step (.emit (.final output) rest) (.ok output)
  | fault {fault : Fault} {rest : Script Item Unit} :
      Answers step (.emit (.fault fault) rest) (.error fault)
  | fail {fault : Fault} : Answers step (.fail fault) (.error fault)
  | exhausted : Answers step (.finish ())
      (.error (.executor step "executor stream ended without a final output"))
  | part {output : StepOutput} {rest : Script Item Unit} {r : Except Fault StepOutput}
      (h : Answers step rest r) : Answers step (.emit (.part output) rest) r
  | look {next : SessionState → Script Item Unit} {r : Except Fault StepOutput}
      (state : SessionState) (h : Answers step (next state) r) : Answers step (.look next) r
  | change {f : SessionState → SessionState} {next : Script Item Unit}
      {r : Except Fault StepOutput} (h : Answers step next r) : Answers step (.change f next) r
  | sleep {ms : Nat} {next : Script Item Unit} {r : Except Fault StepOutput}
      (h : Answers step next r) : Answers step (.sleep ms next) r
  | cancel {next : Script Item Unit} {r : Except Fault StepOutput}
      (h : Answers step next r) : Answers step (.cancel next) r
  | cancelled {next : Bool → Script Item Unit} {r : Except Fault StepOutput} (b : Bool)
      (h : Answers step (next b) r) : Answers step (.cancelled next) r
  | count {tally : Ref Tally} {next : Nat → Script Item Unit} {r : Except Fault StepOutput}
      (calls : Nat) (h : Answers step (next calls) r) : Answers step (.count tally next) r

/-- What a step makes of the end of a stream. -/
def concluded (step : String) : Except Fault (Option StepOutput) → Except Fault StepOutput
  | .ok (some output) => .ok output
  | .ok none => .error (.executor step "executor stream ended without a final output")
  | .error fault => .error fault

theorem gives_answers {ctx : RunContext} {send : StepOutput → Fiber Engine Unit} (step : String)
    (items : Script Item Unit) :
    Fiber.Gives (items.upToEnd.run ctx send) fun r => items.Answers step (concluded step r) := by
  induction items with
  | finish a => exact .done .exhausted
  | fail fault => exact .done .fail
  | look next ih => exact .act fun state => (ih state).mono fun _ => .look state
  | change f next ih => exact .act fun _ => ih.mono fun _ => .change
  | sleep ms next ih => exact .after_any fun _ => ih.mono fun _ => .sleep
  | cancel next ih => exact .act fun _ => ih.mono fun _ => .cancel
  | cancelled next ih => exact .act fun b => (ih b).mono fun _ => .cancelled b
  | emit item next ih =>
    cases item with
    | part output => exact .after_any fun _ => ih.mono fun _ => .part
    | final output => exact .done .final
    | fault fault => exact .done .fault
  | count tally next ih => exact .act fun calls => (ih calls).mono fun _ => .count calls
  | abort message => exact .abort message

end Script

/-- A call for a stream comes to what its items come to. -/
theorem Step.gives_streamed (s : Step) {ctx : RunContext} (hs : ctx.isStreaming) (input : StepInput)
    {items : Script Script.Item Unit}
    (h : items.upToEnd = s.executor.stream input (ctx.forStep s.name)) :
    Fiber.Gives (s.invoke input ctx).run (items.Answers s.name) := by
  unfold invoke
  rw [if_pos hs, ← h, RunTask.run_lift_bind]
  refine .after_any fun _ => ?_
  rw [RunTask.run_bind]
  refine (Script.gives_answers s.name items).bind fun r hr => ?_
  rcases r with fault | _ | output
  · exact .done hr
  · exact .done hr
  · exact .done hr

/-- Of a stream that is written as a list, nothing counts after an ending. -/
theorem StreamItem.runAll_ending (scope : Scope) (before rest : List StreamItem) (ending : Ending) :
    runAll scope (before ++ final ending :: rest) = runAll scope (before ++ [final ending]) := by
  induction before with
  | nil => rfl
  | cons item before ih =>
    cases item with
    | part e => simp only [List.cons_append, runAll, ih]
    | act a => simp only [List.cons_append, runAll, ih]
    | final ending' => rfl

end WorkflowEngine
