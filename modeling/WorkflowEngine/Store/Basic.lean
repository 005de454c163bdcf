import WorkflowEngine.Store.Row

/-!
# Stores

Where sessions are kept: in memory as they are, or in a table as rows of texts. A third kind keeps
them in memory and refuses some of the calls.
-/

namespace WorkflowEngine

/-- Which calls are refused, counted from 1. -/
structure Refusals where
  reads : List Nat := []
  upserts : List Nat := []
deriving DecidableEq, Inhabited

inductive Store where
  | memory (records : KeyMap SessionRecord)
  | table (rows : List SessionRow)
  | refusing (refusals : Refusals) (reads upserts : Nat) (records : KeyMap SessionRecord)

namespace Store

instance : Inhabited Store := ⟨.memory ∅⟩

def refused (call : String) (n : Nat) : Fault :=
  .runtime (call ++ " " ++ toString n ++ " refused")

def read (s : Store) (sessionId : String) (now : Instant) :
    Except Fault (Option SessionRecord) × Store :=
  match s with
  | memory records => (.ok (records.get? sessionId), s)
  | table rows =>
    match rows.find? (·.sessionId == sessionId) with
    | some row => ((row.toRecord now).map some, s)
    | none => (.ok none, s)
  | refusing refusals reads upserts records =>
    let n := reads + 1
    let s := refusing refusals n upserts records
    if n ∈ refusals.reads then (.error (refused "read" n), s)
    else (.ok (records.get? sessionId), s)

/-- Inserts a record or puts it in the place of the record of its session, and answers it. -/
def upsert (s : Store) (r : SessionRecord) : Except Fault SessionRecord × Store :=
  match s with
  | memory records => (.ok r, memory (records.insert r.sessionId r))
  | table rows => (.ok r, table ((SessionRow.ofRecord r).put rows))
  | refusing refusals reads upserts records =>
    let n := upserts + 1
    if n ∈ refusals.upserts then (.error (refused "upsert" n), refusing refusals reads n records)
    else (.ok r, refusing refusals reads n (records.insert r.sessionId r))

/-- Deletes a session and tells whether there was one. -/
def delete (s : Store) (sessionId : String) : Bool × Store :=
  match s with
  | memory records => (records.contains sessionId, memory (records.erase sessionId))
  | table rows =>
    (rows.any (·.sessionId == sessionId), table (rows.filter (·.sessionId != sessionId)))
  | refusing refusals reads upserts records =>
    (records.contains sessionId, refusing refusals reads upserts (records.erase sessionId))

def latestFirst (workflowId : Option String) (records : List SessionRecord) : List SessionRecord :=
  (records.filter fun r => workflowId.all (· == r.workflowId)).mergeSort fun a b =>
    b.updatedAt.le a.updatedAt

/-- The sessions of a workflow, or all sessions, the latest change first. -/
def list (s : Store) (workflowId : Option String) (now : Instant) :
    Except Fault (List SessionRecord) :=
  match s with
  | memory records | refusing _ _ _ records => .ok (latestFirst workflowId records.values)
  | table rows => (SessionRow.select workflowId rows).mapM (·.toRecord now)

/-- Names a session and tells whether there is one. -/
def rename (s : Store) (sessionId name : String) (now : Instant) : Except Fault Bool × Store :=
  match s.read sessionId now with
  | (.error fault, s) => (.error fault, s)
  | (.ok none, s) => (.ok false, s)
  | (.ok (some r), s) =>
    match s.upsert { r with sessionName := some name, updatedAt := now } with
    | (.error fault, s) => (.error fault, s)
    | (.ok _, s) => (.ok true, s)

end Store

/-! ## Archives -/

namespace SessionRow

def encode (r : SessionRow) : Json :=
  .arr [.str r.sessionId, Json.ofText? r.sessionName, .str r.workflowId, .str r.workflowName,
    .str r.state, .str r.runs, .str r.createdAt, .str r.updatedAt]

def decode? : Json → Option SessionRow
  | .arr [.str sessionId, sessionName, .str workflowId, .str workflowName, .str state, .str runs,
      .str createdAt, .str updatedAt] => do
    let sessionName ← Wire.nullable? Json.text? sessionName
    return { sessionId, sessionName, workflowId, workflowName, state, runs, createdAt, updatedAt }
  | _ => none

end SessionRow

namespace Store

/-- The archive of a table; other stores have none. -/
def archive? : Store → Option String
  | table rows => some (Json.arr (rows.map SessionRow.encode)).compact
  | _ => none

/-- The table in an archive. -/
def ofArchive? (text : String) : Option Store := do
  return table (← Wire.listOf? SessionRow.decode? (← Json.read? .value text))

end Store

end WorkflowEngine
