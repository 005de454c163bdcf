import WorkflowEngine.Session.State
import WorkflowEngine.Step.Input
import WorkflowEngine.Text.Blank

/-!
# Expressions

Workflows can be written as documents. Expressions stand in them for contents that depend on what a
step sees.
-/

namespace WorkflowEngine

inductive Expression where
  | message
  | messageText
  | previous
  | basis
  /-- The contents of all earlier nodes. -/
  | all
  | stepName
  /-- The names of the earlier nodes. -/
  | seen
  | media
  | literal (c : Option Content)
  | step (name : String)
  /-- Whether a node came earlier. -/
  | has (name : String)
  | data (key : String)
  | state (key : String)
  | concat (parts : List Expression)
  | add (e : Expression) (n : Binary64)

/-- What an expression can see. The session state is not to be seen everywhere. -/
structure Scope where
  input : StepInput
  stepName : String := ""
  state : Option SessionState := none

namespace Expression

def idsText (artifacts : List MediaArtifact) : String :=
  "[" ++ String.intercalate "," (artifacts.map MediaArtifact.id) ++ "]"

def mediaText (m : MediaSet) : String :=
  "i" ++ idsText m.images ++ " v" ++ idsText m.videos ++ " a" ++ idsText m.audio

def truthText (b : Bool) : String := if b then "true" else "false"

mutual

def eval (s : Scope) : Expression → Option Content
  | message => s.input.message
  | messageText => s.input.messageText.map .text
  | previous => s.input.previousContent
  | basis => s.input.basis
  | all => some (.text s.input.allContents)
  | stepName => some (.text s.stepName)
  | seen => some (.text (String.intercalate "," s.input.previousOutputs.keys))
  | media => some (.text (mediaText s.input.media))
  | literal c => c
  | step name => s.input.content? name
  | has name => some (.text (truthText (s.input.output? name).isSome))
  | data key => (s.input.additionalData.get? key).bind Content.ofJson
  | state key => (s.state.bind (SessionState.get? · key)).bind Content.ofJson
  | concat parts => some (.text (joined s parts))
  | add e n => some (.number ((((e.eval s).bind Content.asNumber?).getD .zero).add n))

/-- The texts of expressions one after another. -/
def joined (s : Scope) : List Expression → String
  | [] => ""
  | e :: rest => Content.textOf (e.eval s) ++ joined s rest

end

def word? : String → Option Expression
  | "message" => some message
  | "message_text" => some messageText
  | "prev" => some previous
  | "upstream" => some basis
  | "all" => some all
  | "step_name" => some stepName
  | "seen" => some seen
  | "media" => some media
  | _ => none

mutual

def ofJson? : Json → Option Expression
  | .str word => word? word
  | .obj [(key, .arr items)] =>
    match key with
    | "lit" => some (literal (Content.ofJson (.arr items)))
    | "concat" => (ofItems? items).map concat
    | "add" =>
      match ofFirst? items, items[1]?.bind Json.number? with
      | some e, some n => some (add e n)
      | _, _ => none
    | _ => none
  | .obj [("lit", v)] => some (literal (Content.ofJson v))
  | .obj [("step", .str name)] => some (step name)
  | .obj [("has", .str name)] => some (has name)
  | .obj [("data", .str key)] => some (data key)
  | .obj [("state", .str key)] => some (state key)
  | _ => none

def ofItems? : List Json → Option (List Expression)
  | [] => some []
  | v :: rest => do return (← ofJson? v) :: (← ofItems? rest)

def ofFirst? : List Json → Option Expression
  | [] => none
  | v :: _ => ofJson? v

end

end Expression

end WorkflowEngine
