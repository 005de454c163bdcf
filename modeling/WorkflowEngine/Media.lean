import WorkflowEngine.Json.Basic

/-!
# Media

References to images, videos and audio that travel along with step results.
-/

namespace WorkflowEngine

inductive MediaKind where
  | image
  | video
  | audio
deriving DecidableEq, Inhabited

structure MediaArtifact where
  id : String
  kind : MediaKind
  url : Option String := none
  mimeType : Option String := none
  dataBase64 : Option String := none
deriving DecidableEq, Inhabited

/-- An artifact that is known by its address. -/
def MediaArtifact.ofUrl (id : String) (kind : MediaKind) (url : String) : MediaArtifact :=
  { id, kind, url := some url }

structure MediaSet where
  images : List MediaArtifact := []
  videos : List MediaArtifact := []
  audio : List MediaArtifact := []
deriving DecidableEq, Inhabited

namespace MediaSet

def empty : MediaSet := {}

def isEmpty (m : MediaSet) : Bool := m.images.isEmpty && m.videos.isEmpty && m.audio.isEmpty

/-- Kind by kind, the artifacts of the first set before those of the second. -/
def append (a b : MediaSet) : MediaSet :=
  ⟨a.images ++ b.images, a.videos ++ b.videos, a.audio ++ b.audio⟩

instance : Append MediaSet := ⟨append⟩

/-- Adds an artifact at the end of its kind. -/
def push (m : MediaSet) (a : MediaArtifact) : MediaSet :=
  match a.kind with
  | .image => { m with images := m.images ++ [a] }
  | .video => { m with videos := m.videos ++ [a] }
  | .audio => { m with audio := m.audio ++ [a] }

end MediaSet

end WorkflowEngine
