import WorkflowEngine.Fault
import WorkflowEngine.Node.Basic

/-!
# Joining parallel children

The output of a parallel node is put together from the results of all its children.
-/

namespace WorkflowEngine.Join

/-- The fault that decides: a cancellation, or else the first one. -/
def fault? : List (Except Fault StepOutput) → Option Fault
  | [] => none
  | .ok _ :: rest => fault? rest
  | .error fault :: rest =>
    if fault = .cancelled then some fault
    else if rest.any isCancelled then some .cancelled
    else some fault
where
  isCancelled : Except Fault StepOutput → Bool
    | .error .cancelled => true
    | _ => false

/-- The outputs by name. Of two children with one name the later one counts. -/
def outputs (names : List String) (results : List (Except Fault StepOutput)) :
    KeyMap StepOutput :=
  KeyMap.ofList ((names.zip results).filterMap fun (name, r) =>
    match r with
    | .ok output => some (name, output)
    | .error _ => none)

/-- The media of the children in the order of their declaration. -/
def media (outputs : KeyMap StepOutput) : List String → MediaSet
  | [] => {}
  | name :: rest =>
    match outputs.get? name with
    | some output => output.media ++ media outputs rest
    | none => media outputs rest

/-- The failures of the children, each with its name. -/
def failures (outputs : KeyMap StepOutput) (names : List String) : List String :=
  names.filterMap fun name =>
    match outputs.get? name with
    | some output =>
      if output.success then none else some (name ++ ": " ++ output.error.getD "failed")
    | none => none

/-- It succeeds if all children do and stops if one of them does. -/
def output (name : String) (names : List String) (outputs : KeyMap StepOutput) : StepOutput :=
  let success := outputs.values.all StepOutput.success
  { stepName := name
    executorKind := .parallel
    executorName := name
    children := some outputs
    media := media outputs names
    success
    error :=
      if success then none
      else some ("Parallel " ++ name ++ " failed: "
        ++ String.intercalate "; " (failures outputs names))
    stop := outputs.values.any StepOutput.stop }

/-- Joins the results of the children in the order of their declaration. -/
def result (name : String) (names : List String) (results : List (Except Fault StepOutput)) :
    Except Fault StepOutput :=
  match fault? results with
  | some fault => .error fault
  | none => .ok (output name names (outputs names results))

end WorkflowEngine.Join
