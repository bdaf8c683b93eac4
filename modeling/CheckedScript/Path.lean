/-!
Paths as text. Two paths are the same if their components are: repeated and trailing slashes do
not count, nor does `.` except in front.
-/

namespace CheckedScript.Path

/-- The texts between the slashes. -/
def segments (path : String) : List String :=
  (go path.toList).map String.ofList
where
  go : List Char → List (List Char)
    | [] => [[]]
    | c :: cs =>
      if c = '/' then [] :: go cs
      else match go cs with
        | segment :: rest => (c :: segment) :: rest
        | [] => [[c]]

/-- Whether a path starts at the root. -/
def isAbsolute (path : String) : Bool := path.toList.head? = some '/'

inductive Component
  | root
  | here
  | parent
  | normal (name : String)
deriving DecidableEq, Repr

/-- The components of a path. -/
def components (path : String) : List Component :=
  let inner (segment : String) : Option Component :=
    if segment = "" || segment = "." then none
    else if segment = ".." then some .parent
    else some (.normal segment)
  match segments path with
  | "" :: segment :: rest => .root :: (segment :: rest).filterMap inner
  | "." :: rest => .here :: rest.filterMap inner
  | all => all.filterMap inner

/-- Whether two paths have the same components. -/
def same (a b : String) : Bool := components a = components b

/-- The name before the last dot, unless the dot comes first. -/
def stem (name : String) : String :=
  let cs := name.toList
  let behind := cs.reverse.takeWhile (· ≠ '.')
  if behind.length + 1 < cs.length then String.ofList (cs.take (cs.length - behind.length - 1))
  else name

/-- Takes trailing slashes and `/.` off, last character first. -/
def trimmed : List Char → List Char
  | '/' :: cs => trimmed cs
  | '.' :: '/' :: cs => trimmed cs
  | cs => cs

/-- The path up to the name of its last component, and that name; `none` if the path does not
end in a name. -/
def splitName? (path : String) : Option (String × String) :=
  let reversed := trimmed path.toList.reverse
  let name := String.ofList (reversed.takeWhile (· ≠ '/')).reverse
  let directory := String.ofList (reversed.dropWhile (· ≠ '/')).reverse
  if name = "" || name = "." || name = ".." then none else some (directory, name)

/-- The path with the extension of its last name replaced, or added. A path without a name stays
as it is. The old extension is taken off first, and if that leaves `..`, which is no name, at the
end of the path, none is added. -/
def withExtension (path extension : String) : String :=
  match splitName? path with
  | some (directory, name) =>
    if stem name = "." && path = directory ++ name then directory ++ ".."
    else directory ++ stem name ++ "." ++ extension
  | none => path

/-- The directory that holds what the path names. -/
def parent? (path : String) : Option String :=
  match components path with
  | [] => none
  | [.root] => none
  | _ =>
    let reversed := trimmed path.toList.reverse
    some (String.ofList (reversed.dropWhile (· ≠ '/')).reverse)

end CheckedScript.Path
