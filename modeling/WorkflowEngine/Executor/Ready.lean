import WorkflowEngine.Executor.Basic

/-!
# Ready-made executors

Small executors to try a workflow out with.
-/

namespace WorkflowEngine.Executor

/-- Hands on the content it builds on and reports one call. -/
def echo (name : String) (kind : ExecutorKind) : Executor :=
  { name, kind
    call := fun input _ =>
      .finish { content := input.basis, metrics := some (.obj [("calls", .int 1)]) } }

/-- Always fails. -/
def failing (name message : String) : Executor :=
  { name, call := fun _ ctx => .fail (.executor ctx.stepName message) }

/-- Answers with a content and counts its calls. -/
def counting (name : String) (content : Content) (calls : Ref Tally) : Executor :=
  { name, call := fun _ _ => .count calls fun _ => .finish (.ofContent content) }

/-- Adds one to the number it builds on, zero when there is none. -/
def increment (name : String) : Executor :=
  { name
    call := fun input _ =>
      let current := (input.basis.bind Content.asNumber?).getD .zero
      .finish (.ofContent (.number (current.add (.ofInt 1)))) }

/-- Takes its time before it answers. -/
def slow (name : String) (ms : Nat) (content : Content) : Executor :=
  { name, call := fun _ _ => .sleep ms (.finish (.ofContent content)) }

def emitChunks : List String → Script StepOutput α → Script StepOutput α
  | [], next => next
  | chunk :: rest, next => .emit (.ofText chunk) (emitChunks rest next)

/-- Streams its chunks one by one and ends with all of them. -/
def streaming (name : String) (chunks : List String) : Executor :=
  { name
    kind := .agent
    call := fun _ _ => .finish (.ofText (String.join chunks))
    stream := fun _ _ => emitChunks chunks (.finish (some (.ofText (String.join chunks)))) }

/-- Sets a key of the session state and says so. -/
def stateWriter (name key : String) (value : Json) : Executor :=
  { name
    call := fun _ _ =>
      .change (·.insert key value) (.finish (.ofText (key ++ "=" ++ value.compact))) }

/-- Answers by a function of the input alone. -/
def ofFunction (name : String) (f : StepInput → Except Fault StepOutput) : Executor :=
  { name
    call := fun input _ =>
      match f input with
      | .ok output => .finish output
      | .error fault => .fail fault }

end WorkflowEngine.Executor
