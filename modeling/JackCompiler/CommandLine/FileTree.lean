import JackCompiler.CommandLine.Host

/-! A tree of files in memory, and a command line that runs on it. -/

namespace JackCompiler

/-- What stands at a place in a tree. -/
inductive Entry where
  | directory
  | file (content : ByteArray)

/-- The names on the way from the root of a tree to a place. -/
abbrev Place := List ByteString

/-- The entries of a tree below its root. -/
structure FileTree where
  entries : List (Place × Entry) := []

namespace FileTree

/-- What stands at a place; the root is a directory. -/
def get? (tree : FileTree) (place : Place) : Option Entry :=
  if place = [] then some .directory else tree.entries.lookup place

/-- The tree with an entry at a place, in the stead of any entry that stood there. -/
def insert (tree : FileTree) (place : Place) (entry : Entry) : FileTree :=
  ⟨(place, entry) :: tree.entries.filter fun (other, _) => other ≠ place⟩

/-- The place that names lead to from another place, where every place on the way is a directory. -/
def follow (tree : FileTree) (place : Place) : List ByteString → Except FileFault Place
  | [] => .ok place
  | name :: names =>
    match tree.get? place with
    | none => .error .notFound
    | some (.file _) => .error .notDirectory
    | some .directory =>
      if name = [] ∨ name = Path.here then tree.follow place names
      -- The root is its own parent.
      else if name = Path.parent then tree.follow place.dropLast names
      else tree.follow (place ++ [name]) names

/-- The place of a path, which starts at the root or at the given directory. -/
def resolve (tree : FileTree) (working : Place) (path : Path) : Except FileFault Place :=
  if path.bytes = [] then .error .notFound
  else tree.follow (if path.bytes.head? = some Path.slash then [] else working) path.names

/-- What a path names. -/
def find (tree : FileTree) (working : Place) (path : Path) : Except FileFault Entry := do
  match tree.get? (← tree.resolve working path) with
  | some entry => return entry
  | none => throw .notFound

/-- The names in a directory. -/
def list (tree : FileTree) (working : Place) (path : Path) :
    Except FileFault (List ByteString) := do
  let place ← tree.resolve working path
  return tree.entries.filterMap fun (other, _) =>
    if other.dropLast = place then other.getLast? else none

/-- The content of a file. -/
def read (tree : FileTree) (working : Place) (path : Path) : Except FileFault ByteArray := do
  match ← tree.find working path with
  | .directory => throw .isDirectory
  | .file content => return content

/-- The tree after a file has been given a content. -/
def write (tree : FileTree) (working : Place) (path : Path) (content : ByteArray) :
    Except FileFault FileTree := do
  let place ← tree.resolve working path
  match tree.get? place with
  | some .directory => throw .isDirectory
  | _ => return tree.insert place (.file content)

end FileTree

/-- Something that a program puts out. -/
inductive Message where
  /-- A text on the standard output. -/
  | print (text : String)
  /-- A report that the logger is given. -/
  | report (record : LogRecord)
deriving DecidableEq

/-- A tree of files with a working directory, and what was put out so far. -/
structure Session where
  files : FileTree
  working : Place
  messages : List Message := []

namespace Session

/-- The session when more was put out. -/
def putOut (session : Session) (more : List Message) : Session :=
  { session with messages := session.messages ++ more }

/-- The files and the output of a session. -/
def host : Host (StateM Session) where
  print text := modify fun session => session.putOut [.print text]
  report record := modify fun session => session.putOut [.report record]
  isDirectory path := return match (← get).files.find (← get).working path with
    | .ok .directory => true
    | _ => false
  isFile path := return match (← get).files.find (← get).working path with
    | .ok (.file _) => true
    | _ => false
  list path := return (← get).files.list (← get).working path
  read path := return (← get).files.read (← get).working path
  write path text := do
    let session ← get
    match session.files.write session.working path text.toUTF8 with
    | .error fault => return .error fault
    | .ok files =>
      set { session with files }
      return .ok ()

end Session

end JackCompiler
