import CheckedScript.Path

/-!
A tree of files and directories, by the list of names that leads to each of them. A path that
does not start at the root is read from the current directory.

Of permissions the tree knows whether a file is executable, and which files have an owner who
alone can change that. There are no links, so a location has one path but for `.`, `..` and
slashes; everything can be read and written; and a disk is never full, so a write that fails
changes nothing.
-/

namespace CheckedScript

/-- The names that lead from the root to a place in the tree. -/
abbrev Location := List String

inductive Entry
  | file (content : ByteArray) (executable : Bool)
  | directory

/-- Whether two entries hold the same bytes under the same mode. -/
def Entry.isSame : Entry → Entry → Bool
  | file a x, file b y => a.data == b.data && x == y
  | directory, directory => true
  | _, _ => false

/-- Why a file cannot be used. -/
inductive FileFault
  | notFound
  | notDirectory
  | isDirectory
  | notText
  | notPermitted
deriving DecidableEq, Repr

def FileFault.message : FileFault → String
  | notFound => "No such file or directory (os error 2)"
  | notDirectory => "Not a directory (os error 20)"
  | isDirectory => "Is a directory (os error 21)"
  | notText => "stream did not contain valid UTF-8"
  | notPermitted => "Operation not permitted (os error 1)"

structure FileTree where
  entries : List (Location × Entry) := []
  /-- The current directory. -/
  current : Location := []
  /-- The files that belong to someone else. They can be written, but their mode stays. -/
  foreign : List Location := []

namespace FileTree

/-- What stands at a location. The root is always there. -/
def get? (tree : FileTree) (location : Location) : Option Entry :=
  if location = [] then some .directory
  else (tree.entries.find? fun entry => entry.1 = location).map (·.2)

/-- Puts an entry at a location, in place of what is there. -/
def put (tree : FileTree) (location : Location) (entry : Entry) : FileTree :=
  { tree with entries := go tree.entries }
where
  go : List (Location × Entry) → List (Location × Entry)
    | [] => [(location, entry)]
    | old :: rest => if old.1 = location then (location, entry) :: rest else old :: go rest

/-- Follows the segments of a path. Whatever is passed through must be a directory; the place
arrived at need not exist. -/
def follow (tree : FileTree) (location : Location) : List String → Except FileFault Location
  | [] => .ok location
  | segment :: segments =>
    match tree.get? location with
    | none => .error .notFound
    | some (.file ..) => .error .notDirectory
    | some .directory =>
      if segment = "" || segment = "." then tree.follow location segments
      else if segment = ".." then tree.follow location.dropLast segments
      else tree.follow (location ++ [segment]) segments

/-- Where a path is read from. -/
def origin (tree : FileTree) (path : String) : Location :=
  if Path.isAbsolute path then [] else tree.current

/-- The location that a path denotes. -/
def locate (tree : FileTree) (path : String) : Except FileFault Location :=
  if path = "" then .error .notFound else tree.follow (tree.origin path) (Path.segments path)

/-- The content of the file at `path`. -/
def read (tree : FileTree) (path : String) : Except FileFault ByteArray := do
  let location ← tree.locate path
  match tree.get? location with
  | none => .error .notFound
  | some .directory => .error .isDirectory
  | some (.file content _) => .ok content

/-- The content of the file at `path` as text. -/
def readText (tree : FileTree) (path : String) : Except FileFault String := do
  match String.fromUTF8? (← tree.read path) with
  | some text => .ok text
  | none => .error .notText

/-- Changes the content of the file at `path`; a file that is not there is made first. -/
def change (tree : FileTree) (path : String) (f : ByteArray → ByteArray) :
    Except FileFault FileTree := do
  let segments := Path.segments path
  -- a name with a slash behind it can only be that of a directory
  if segments.getLast? = some "" && segments.dropLast ≠ [] then
    if let .ok location := tree.follow (tree.origin path) segments.dropLast then
      if (tree.get? location).isNone then .error .isDirectory
  let location ← tree.locate path
  match tree.get? location with
  | some .directory => .error .isDirectory
  | some (.file content executable) => .ok (tree.put location (.file (f content) executable))
  | none => .ok (tree.put location (.file (f ByteArray.empty) false))

/-- Replaces the content of the file at `path`. -/
def write (tree : FileTree) (path : String) (text : String) : Except FileFault FileTree :=
  tree.change path fun _ => text.toUTF8

/-- Adds to the content of the file at `path`. -/
def append (tree : FileTree) (path : String) (text : String) : Except FileFault FileTree :=
  tree.change path fun content => content ++ text.toUTF8

/-- Marks the file at `path` as executable. -/
def makeExecutable (tree : FileTree) (path : String) : Except FileFault FileTree := do
  let location ← tree.locate path
  match tree.get? location with
  | none => .error .notFound
  | some entry =>
    if location ∈ tree.foreign then .error .notPermitted
    else match entry with
      | .file content _ => .ok (tree.put location (.file content true))
      | .directory => .ok tree

/-- Follows the segments of a path and makes the directories that are missing, as far as no file
stands in the way. -/
def makeMissing (tree : FileTree) (location : Location) : List String → FileTree
  | [] => tree
  | segment :: segments =>
    if segment = "" || segment = "." then tree.makeMissing location segments
    else if segment = ".." then tree.makeMissing location.dropLast segments
    else
      let location := location ++ [segment]
      match tree.get? location with
      | some (.file ..) => tree
      | some .directory => tree.makeMissing location segments
      | none => (tree.put location .directory).makeMissing location segments

/-- Makes the directory at `path` and those above it. -/
def makeDirectories (tree : FileTree) (path : String) : FileTree :=
  tree.makeMissing (tree.origin path) (Path.segments path)

/-- The files that are new or changed since `before`. -/
def changedSince (tree before : FileTree) : List (Location × ByteArray × Bool) :=
  tree.entries.filterMap fun (location, entry) =>
    match entry with
    | .directory => none
    | .file content executable =>
      if (before.get? location).any entry.isSame then none else some (location, content, executable)

end FileTree

end CheckedScript
