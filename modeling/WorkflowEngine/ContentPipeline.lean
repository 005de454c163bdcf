import WorkflowEngine.Executor.Ready
import WorkflowEngine.Text.Lowercase
import WorkflowEngine.Workflow.Basic

/-!
# The content pipeline

The bundled workflow. It researches a topic, drafts an outline and keywords side by side, polishes
the outline of a long brief, and publishes on the channel that the input names.
-/

namespace WorkflowEngine.ContentPipeline

/-- Briefs with more words are polished. -/
def reviewThreshold : Nat := 4

/-- A step that answers with a content made from its input. -/
def contentStep (name : String) (content : StepInput → Content) : Node :=
  .step { name, executor := .ofFunction name fun input => .ok (.ofContent (content input)) }

def previousText (input : StepInput) : String := Content.textOf input.previousContent

/-- Takes some time and remembers the topic in the session. -/
def research : Node :=
  .step
    { name := "research"
      description := some "Collect notes on the topic"
      executor :=
        { name := "researcher"
          kind := .agent
          call := fun input _ =>
            let topic := input.messageText.getD "nothing"
            .sleep 50 (.change (·.insert "topic" (.str topic)) (.finish
              { content := some (.text ("Notes on " ++ topic))
                metrics := some (.obj [("sources", .int 3)]) })) } }

def outline : Node :=
  contentStep "outline" fun input =>
    .text ("1. Introduction\n2. " ++ previousText input ++ "\n3. Conclusion")

/-- The words of the message with more than three bytes, in lower case. -/
def keywords : Node :=
  contentStep "keywords" fun input =>
    let long := (Text.words (input.messageText.getD "")).filter (·.utf8ByteSize > 3)
    .list (long.map fun w => .str (Text.lowercase w))

def drafts : Node :=
  .parallel "drafts" (some "Outline and keywords side by side") [outline, keywords]

/-- The outline among the drafts. -/
def draftOutline (input : StepInput) : Option Content := do
  let children ← (← input.output? "drafts").children
  (← children.get? "outline").content

/-- Revises its own last result, at first the outline. -/
def revise : Node :=
  contentStep "revise" fun input =>
    .text (Content.textOf ((input.content? "revise").or (draftOutline input)) ++ " (revised)")

/-- Whether the last output was revised twice. -/
def isPolished (outputs : List StepOutput) : Bool :=
  let last := Content.textOf (outputs.getLast?.bind StepOutput.content)
  2 ≤ Text.countOf "(revised)" last

def polish : Node :=
  .loop "polish" none 3 (some fun outputs => .ok (isPolished outputs)) [revise]

def isLongBrief (input : StepInput) : Bool :=
  reviewThreshold < (Text.words (input.messageText.getD "")).length

def review : Node :=
  .condition "review" (some "Only long briefs get polished")
    (fun input => .ok (isLongBrief input)) [polish]

/-- The parts of a post: its heading, then each line of all contents so far. -/
def postParts (input : StepInput) : List String :=
  "# Blog post\n" :: (Text.lines input.allContents).map ("\n" ++ ·)

/-- Emits the parts of a post one by one, each after a pause. -/
def writeParts : List String → Script StepOutput α → Script StepOutput α
  | [], next => next
  | part :: rest, next => .sleep 20 (.emit (.ofText part) (writeParts rest next))

def blog : Node :=
  .step
    { name := "blog"
      executor :=
        { name := "blog-writer"
          kind := .agent
          call := fun input _ => .finish (.ofText (String.join (postParts input)))
          stream := fun input _ =>
            writeParts (postParts input)
              (.finish (some (.ofText (String.join (postParts input))))) } }

def newsletter : Node :=
  .steps "newsletter" none
    [contentStep "summarize" fun input => .text ("This week: " ++ previousText input),
     contentStep "sign_off" fun input => .text (previousText input ++ "\n\n-- The editors")]

/-- The channel of an input, the blog when it names none. -/
def channel (input : StepInput) : String :=
  match input.additionalData.get? "channel" with
  | some (.str s) => s
  | _ => "blog"

def publish : Node :=
  .router "publish" none (fun input => .ok (channel input)) [blog, newsletter]

def nodes : List Node := [research, drafts, review, publish]

/-- The pipeline with a session of its own. -/
def workflow (e : Engine) : Workflow × Engine :=
  let (w, e) := Workflow.new "content-pipeline" (.nodes nodes) e
  ({ w with
      id := "demo-content-pipeline"
      description := some "Research a topic and publish it" }, e)

end WorkflowEngine.ContentPipeline
