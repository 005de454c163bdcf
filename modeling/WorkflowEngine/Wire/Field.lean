import WorkflowEngine.Json.Basic
import WorkflowEngine.Json.Shape

/-!
# Fields of records

How records are read from JSON values: as an object with named members, or as the list of their
fields in order with fields missing at the end.
-/

namespace WorkflowEngine.Wire

open Json (Record)

abbrev Members := List (String × Json)

/-- The members of a record. -/
def members? (r : Record) : Json → Option Members
  | .obj members => some members
  | .arr items =>
    if items.length ≤ r.fieldNames.length then some (r.fieldNames.zip items) else none
  | _ => none

/-- A field that must be there. -/
def required? (ms : Members) (key : String) (read : Json → Option α) : Option α :=
  (ms.lookup key).bind read

/-- A field with a value of its own when it is missing. -/
def defaulted? (ms : Members) (key : String) (fallback : α) (read : Json → Option α) : Option α :=
  match ms.lookup key with
  | some v => read v
  | none => some fallback

/-- An optional value, with null for none. -/
def nullable? (read : Json → Option α) : Json → Option (Option α)
  | .null => some none
  | v => (read v).map some

/-- A field that may be missing or null. -/
def optional? (ms : Members) (key : String) (read : Json → Option α) : Option (Option α) :=
  defaulted? ms key none (nullable? read)

def listOf? (read : Json → Option α) (v : Json) : Option (List α) :=
  v.items?.bind (·.mapM read)

def tableOf? (read : Json → Option α) (v : Json) : Option (KeyMap α) := do
  let entries ← (← v.members?).mapM fun (key, v) => do return (key, ← read v)
  return KeyMap.ofList entries

def map? (v : Json) : Option (KeyMap Json) := v.members?.map KeyMap.ofList

/-- One of a list of words, written as the word or as an object with the word over no payload. -/
def variant? (bare : Json → Bool) (all : List α) (name : α → String) : Json → Option α
  | .str s => all.find? (name · == s)
  | .obj [(s, payload)] => if bare payload then all.find? (name · == s) else none
  | _ => none

/-- A member that is left out for none. -/
def field? (key : String) (v : Option Json) : Members :=
  match v with
  | some v => [(key, v)]
  | none => []

def natJson (n : Nat) : Json := .int n

def nullOr (v : Option Json) : Json := v.getD .null

end WorkflowEngine.Wire
