/-!
# Environment variables and paths
-/

namespace WorkflowEngine

/-- The values of the variables that are set. -/
abbrev Environment := String → Option String

namespace Environment

def openMark : List Char := ['$', '\x7b']

/-- What a reference stands for; one to an unset variable stands for itself. -/
def valueOf (env : Environment) (name : List Char) : List Char :=
  match env (String.ofList name) with
  | some v => v.toList
  | none => openMark ++ name ++ ['\x7d']

/-- Expands a text. After the opening of a reference the name read so far is kept, the last
character first; the end of the text closes a reference. -/
def expandFrom (env : Environment) : Option (List Char) → List Char → List Char
  | none, '$' :: '\x7b' :: rest => expandFrom env (some []) rest
  | none, c :: rest => c :: expandFrom env none rest
  | none, [] => []
  | some name, c :: rest =>
    if c = '\x7d' then env.valueOf name.reverse ++ expandFrom env none rest
    else expandFrom env (some (c :: name)) rest
  | some name, [] => env.valueOf name.reverse

/-- The text with every reference replaced by its value. Values are not scanned again. -/
def expand (env : Environment) (text : String) : String :=
  String.ofList (expandFrom env none text.toList)

/-- The names that the references of a text are to. -/
def namesFrom : Option (List Char) → List Char → List String
  | none, '$' :: '\x7b' :: rest => namesFrom (some []) rest
  | none, _ :: rest => namesFrom none rest
  | none, [] => []
  | some name, c :: rest =>
    if c = '\x7d' then String.ofList name.reverse :: namesFrom none rest
    else namesFrom (some (c :: name)) rest
  | some name, [] => [String.ofList name.reverse]

def names (text : String) : List String := namesFrom none text.toList

end Environment

end WorkflowEngine

namespace WorkflowEngine.Path

def isAbsolute (path : String) : Bool := path.startsWith "/"

/-- A path below another one. An absolute path takes the place of the first. -/
def join (base path : String) : String :=
  if isAbsolute path then path
  else if base.isEmpty || base.endsWith "/" then base ++ path
  else base ++ "/" ++ path

/-- Replaces `~/` at the front by the home directory, if there is one. -/
def expandHome (env : Environment) (path : String) : String :=
  match path.toList with
  | '~' :: '/' :: rest =>
    match env "HOME" with
    | some home => join home (String.ofList rest)
    | none => path
  | _ => path

/-- What stands at a path. -/
inductive Entry where
  | missing
  /-- A folder, or a file that holds no text. -/
  | unreadable
  | text (content : String)
deriving DecidableEq, Inhabited

/-- The names in a path, without empty ones and without `.`. -/
def names (path : String) : List String :=
  (path.splitOn "/").filter fun name => !name.isEmpty && name != "."

/-- The names on the way to a path below a folder. The name `..` takes back the one before it. -/
def componentsFrom (folder : List String) (path : String) : List String :=
  ((names path).foldl (fun above name =>
    if name == ".." then above.drop 1 else name :: above) folder.reverse).reverse

def components (path : String) : List String := componentsFrom [] path

/-- The names on the way to a path, which is below a folder when it is not absolute. -/
def locate (folder : List String) (path : String) : List String :=
  componentsFrom (if isAbsolute path then [] else folder) path

end WorkflowEngine.Path
