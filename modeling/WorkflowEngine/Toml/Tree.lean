import WorkflowEngine.Json.Basic

/-!
# Tables under construction

A TOML document is a list of statements. Each one opens a table, opens the next table of a list, or
sets a key in the table that is open. This module says which statements fit together.
-/

namespace WorkflowEngine.Toml

/-- What a key of a table holds. A table is `implied` until a header names it, and `dotted` when it
came from a key with dots. -/
inductive Item where
  | value (v : Json)
  | table (implied dotted : Bool) (entries : List (String × Item))
  | tables (all : List (List (String × Item)))

abbrev Entries := List (String × Item)

inductive Statement where
  | header (path : List String)
  | nextHeader (path : List String)
  | pair (path : List String) (v : Json)

/-- Puts an item under a key, in the place of the one there or at the end. -/
def put (key : String) (item : Item) : Entries → Entries
  | [] => [(key, item)]
  | (k, i) :: rest => if k = key then (key, item) :: rest else (k, i) :: put key item rest

/-- Changes the last element of a list. -/
def changeLast (f : α → Option α) : List α → Option (List α)
  | [] => none
  | [a] => (f a).map ([·])
  | a :: rest => (changeLast f rest).map (a :: ·)

/-- Changes the table at a path, implying the tables that are missing. A value on the way is an
error; in a list of tables the last one is meant. -/
def within (f : Entries → Option Entries) : List String → Entries → Option Entries
  | [], entries => f entries
  | key :: rest, entries => do
    let item ← match entries.lookup key with
      | none => some (Item.table true false (← within f rest []))
      | some (.value _) => none
      | some (.table implied dotted inner) => some (.table implied dotted (← within f rest inner))
      | some (.tables all) => some (.tables (← changeLast (within f rest) all))
    return put key item entries

/-- Opens a table that no header or dotted key has named before. -/
def openTable (key : String) (entries : Entries) : Option Entries :=
  match entries.lookup key with
  | none => some (put key (.table false false []) entries)
  | some (.table true false inner) => some (put key (.table false false inner) entries)
  | _ => none

def openNextTable (key : String) (entries : Entries) : Option Entries :=
  match entries.lookup key with
  | none => some (put key (.tables [[]]) entries)
  | some (.tables all) => some (put key (.tables (all ++ [[]])) entries)
  | _ => none

/-- Sets a key that is not set yet. With dots before the last key the table must come from such
dots itself. -/
def setKey (v : Json) : List String → Entries → Option Entries
  | [], _ => none
  | [key], entries =>
    match entries.lookup key with
    | none => some (put key (.value v) entries)
    | some _ => none
  | key :: rest, entries => do
    let lastStep := rest.length == 1
    let item ← match entries.lookup key with
      | none => some (Item.table true true (← setKey v rest []))
      | some (.table true isDotted inner) =>
        if lastStep && !isDotted then none
        else some (.table true isDotted (← setKey v rest inner))
      | some (.tables all) =>
        if lastStep then none
        else some (.tables (← changeLast (setKey v rest) all))
      | some _ => none
    return put key item entries

/-- The last key of a path and the path before it. -/
def splitLast : List String → Option (List String × String)
  | [] => none
  | [key] => some ([], key)
  | key :: rest => (splitLast rest).map fun (path, last) => (key :: path, last)

/-- Runs statements on the tables built so far, `current` being the path of the open one. -/
def run (current : List String) (root : Entries) : List Statement → Option Entries
  | [] => some root
  | .header path :: rest => do
    let (parents, key) ← splitLast path
    run path (← within (openTable key) parents root) rest
  | .nextHeader path :: rest => do
    let (parents, key) ← splitLast path
    run path (← within (openNextTable key) parents root) rest
  | .pair path v :: rest => do run current (← within (setKey v path) current root) rest

mutual

/-- The JSON value of an item. -/
def Item.toJson : Item → Json
  | .value v => v
  | .table _ _ entries => .obj (toMembers entries)
  | .tables all => .arr (toItems all)

def toMembers : List (String × Item) → List (String × Json)
  | [] => []
  | (key, item) :: rest => (key, item.toJson) :: toMembers rest

def toItems : List (List (String × Item)) → List Json
  | [] => []
  | entries :: rest => .obj (toMembers entries) :: toItems rest

end

end WorkflowEngine.Toml
