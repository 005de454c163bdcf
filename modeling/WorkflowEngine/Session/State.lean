import WorkflowEngine.Json.Basic

/-!
# Session state

Keys and values that outlive a run, and the merge of what a run changed into what others changed
meanwhile.
-/

namespace WorkflowEngine

/-- A map whose keys strictly increase. -/
structure SessionState where
  map : KeyMap Json
  sorted : map.Sorted

namespace SessionState

instance : EmptyCollection SessionState := ⟨⟨∅, KeyMap.sorted_empty⟩⟩

instance : Inhabited SessionState := ⟨∅⟩

def entries (s : SessionState) : List (String × Json) := s.map.entries

def keys (s : SessionState) : List String := s.map.keys

def get? (s : SessionState) (key : String) : Option Json := s.map.get? key

def contains (s : SessionState) (key : String) : Bool := s.map.contains key

def insert (s : SessionState) (key : String) (v : Json) : SessionState :=
  ⟨s.map.insert key v, s.sorted.insert key v⟩

def erase (s : SessionState) (key : String) : SessionState :=
  ⟨s.map.erase key, s.sorted.erase key⟩

/-- Of two entries with one key the later one stays. -/
def insertMany (s : SessionState) (entries : List (String × Json)) : SessionState :=
  ⟨s.map.insertMany entries, s.sorted.insertMany entries⟩

def ofList (entries : List (String × Json)) : SessionState :=
  ⟨KeyMap.ofList entries, KeyMap.sorted_ofList entries⟩

/-- The object with the entries as its members. -/
def toJson (s : SessionState) : Json := Json.ofMap s.map

def ofJson? (v : Json) : Option SessionState := v.members?.map ofList

def text? (s : SessionState) (key : String) : Option String := (s.get? key).bind Json.text?

/-- Whether two maps hold the same value under a key, or both hold none. -/
def agreeAt (a b : SessionState) (key : String) : Bool :=
  match a.get? key, b.get? key with
  | some v, some w => v.same w
  | none, none => true
  | _, _ => false

/-- Takes over the entries of `changed` that differ from `base`. -/
def applySets (base : SessionState) (s : SessionState) : List (String × Json) → SessionState
  | [] => s
  | (key, v) :: rest =>
    match base.get? key with
    | some old => applySets base (if old.same v then s else s.insert key v) rest
    | none => applySets base (s.insert key v) rest

/-- Removes the keys that `changed` no longer has. -/
def applyRemovals (changed : SessionState) (s : SessionState) : List String → SessionState
  | [] => s
  | key :: rest => applyRemovals changed (if changed.contains key then s else s.erase key) rest

/-- Applies what was set or removed in `changed` relative to `base`; everything else stays. -/
def merge (s base changed : SessionState) : SessionState :=
  applyRemovals changed (applySets base s changed.entries) base.keys

end SessionState

end WorkflowEngine
