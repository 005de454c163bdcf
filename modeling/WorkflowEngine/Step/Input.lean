import WorkflowEngine.Step.Output

/-!
# Step inputs

What a node sees: the run's message and data, the content that came just before, and the outputs
of the nodes chained so far by name.
-/

namespace WorkflowEngine

structure StepInput where
  message : Option Content := none
  previousContent : Option Content := none
  previousOutputs : KeyMap StepOutput := ∅
  additionalData : KeyMap Json := ∅
  media : MediaSet := {}

namespace StepInput

instance : Inhabited StepInput := ⟨{}⟩

def ofMessage (c : Content) : StepInput := { message := some c }

def messageText (i : StepInput) : Option String := i.message.map Content.toText

/-- The content a step builds on: what came before, or the message. -/
def basis (i : StepInput) : Option Content := i.previousContent.or i.message

def output? (i : StepInput) (name : String) : Option StepOutput := i.previousOutputs.get? name

/-- Contents of children by name; a child without content is left out. -/
def childContents : List (String × StepOutput) → List (String × Json)
  | [] => []
  | (name, o) :: rest =>
    match o.content with
    | some c => (name, c.toJson) :: childContents rest
    | none => childContents rest

/-- The content of an earlier node. A node with children gives the object of their contents. -/
def content? (i : StepInput) (name : String) : Option Content :=
  match i.output? name with
  | none => none
  | some o =>
    match o.children with
    | some children => some (.object (KeyMap.ofList (childContents children.entries)))
    | none => o.content

def sections : List (String × StepOutput) → List String
  | [] => []
  | (name, o) :: rest =>
    match o.content with
    | some c => ("=== " ++ name ++ " ===\n" ++ c.toText) :: sections rest
    | none => sections rest

/-- The contents of all earlier nodes, each under its name. -/
def allContents (i : StepInput) : String :=
  String.intercalate "\n\n" (sections i.previousOutputs.entries)

/-- The input of the next node: the output's content comes just before it, the output is known by
name, and its media are appended. -/
def chain (i : StepInput) (name : String) (o : StepOutput) : StepInput :=
  { i with
    previousContent := o.content
    previousOutputs := i.previousOutputs.insert name o
    media := i.media ++ o.media }

end StepInput

/-- What a caller hands to a workflow. -/
structure ExecutionInput where
  message : Option Content := none
  additionalData : KeyMap Json := ∅
  media : MediaSet := {}

namespace ExecutionInput

def ofMessage (c : Content) : ExecutionInput := { message := some c }

def withData (i : ExecutionInput) (key : String) (v : Json) : ExecutionInput :=
  { i with additionalData := i.additionalData.insert key v }

def withMedia (i : ExecutionInput) (a : MediaArtifact) : ExecutionInput :=
  { i with media := i.media.push a }

/-- The input of the first node. -/
def toStepInput (i : ExecutionInput) : StepInput :=
  { message := i.message, additionalData := i.additionalData, media := i.media }

end ExecutionInput

end WorkflowEngine
