import WorkflowEngine.Config.Path
import WorkflowEngine.Pool
import WorkflowEngine.Store.Basic

/-!
# Files

The files a program works with, by the names on the way to them: texts, and tables of sessions.
-/

namespace WorkflowEngine

inductive FileNode where
  | text (content : String)
  | table (store : Ref Store)

structure FileTree where
  files : List (List String × FileNode) := []
  folders : List (List String) := []

namespace FileTree

instance : Inhabited FileTree := ⟨{}⟩

def node? (t : FileTree) (path : List String) : Option FileNode := t.files.lookup path

def text? (t : FileTree) (path : List String) : Option String :=
  match t.node? path with
  | some (.text content) => some content
  | _ => none

/-- Whether one path leads to another that lies below it. -/
def leadsTo (a b : List String) : Bool := a.isPrefixOf b && a.length < b.length

def isFolder (t : FileTree) (path : List String) : Bool :=
  path.isEmpty || t.folders.any (path.isPrefixOf ·) || t.files.any (leadsTo path ·.1)

def put (t : FileTree) (path : List String) (node : FileNode) : FileTree :=
  { t with files := (path, node) :: t.files.filter (·.1 != path) }

def addFolder (t : FileTree) (path : List String) : FileTree :=
  { t with folders := path :: t.folders }

/-- Follows names from a folder on. Every name but the last must be that of a folder. -/
def follow (t : FileTree) : List String → List String → Option (List String)
  | place, [] => some place
  | place, name :: rest =>
    if !t.isFolder place then none
    else if name.isEmpty || name == "." then t.follow place rest
    else if name == ".." then t.follow place.dropLast rest
    else t.follow (place ++ [name]) rest

/-- What stands at a path that starts in a folder. -/
def entry (t : FileTree) (folder : List String) (path : String) : Path.Entry :=
  match t.follow folder (path.splitOn "/") with
  | none => .missing
  | some place =>
    if t.isFolder place then .unreadable
    else match t.node? place with
      | none => .missing
      | some (.text content) => .text content
      | some (.table _) => .unreadable

/-- How many bytes a path has, with a slash before each name. -/
def pathSize (path : List String) : Nat :=
  path.foldl (fun size name => size + 1 + name.utf8ByteSize) 0

def hasNul (name : String) : Bool := name.toList.contains '\x00'

/-- A name has at most 255 bytes. -/
def isLongName (name : String) : Bool := 255 < name.utf8ByteSize

/-- Creates the folders on the way from a folder on. A file in the place of one is in the way. -/
def createFolders (t : FileTree) : List String → List String → Except String FileTree
  | _, [] => .ok t
  | place, name :: rest =>
    let next := if name == ".." then place.dropLast else place ++ [name]
    if isLongName name then .error "File name too long (os error 36)"
    else if (t.node? next).isSome then
      .error (if rest.isEmpty then "File exists (os error 17)" else "Not a directory (os error 20)")
    else (t.addFolder next).createFolders next rest

/-- Creates the folders that a path leads through. -/
def createWay (t : FileTree) (folder names : List String) : Except String FileTree :=
  if names.any hasNul then .error "file name contained an unexpected NUL byte"
  else if 4096 ≤ pathSize (folder ++ names) then .error "File name too long (os error 36)"
  else t.createFolders folder names

/-- Whether no table can be at a path. A table has files beside it, whose names and paths are
eight bytes longer. -/
def isUnfit (t : FileTree) (path : List String) : Bool :=
  t.isFolder path || isLongName (path.getLastD "" ++ "-journal") || 504 < pathSize path

/-- Opens the table at a path that starts in a folder, creating it and the folders above it when
they are missing. -/
def openTable (t : FileTree) (stores : Pool Store) (folder : List String) (path : String) :
    Except Fault (Ref Store) × FileTree × Pool Store :=
  let start := if Path.isAbsolute path then [] else folder
  match t.createWay start (Path.names path).dropLast with
  | .error problem =>
    (.error (.database ("Failed to create db directory: " ++ problem)), t, stores)
  | .ok t =>
    let place := Path.locate folder path
    if hasNul path then (.error (.database "nul byte found in the path"), t, stores)
    else if t.isUnfit place then
      (.error (.database ("unable to open database file: " ++ path)), t, stores)
    else match t.node? place with
      | some (.table store) => (.ok store, t, stores)
      | some (.text content) =>
        if content.isEmpty then create t place
        else (.error (.database "file is not a database"), t, stores)
      | none => create t place
where
  create (t : FileTree) (path : List String) : Except Fault (Ref Store) × FileTree × Pool Store :=
    let (store, stores) := stores.add (.table [])
    (.ok store, t.put path (.table store), stores)

end FileTree

end WorkflowEngine
