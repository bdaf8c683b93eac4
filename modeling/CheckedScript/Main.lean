import CheckedScript.CommandLine

/-!
The program. It looks at the files that a run may use, runs on that picture of the file tree,
and carries out what the run has changed in it.
-/

namespace CheckedScript.Main

/-- The path from the root to a location. -/
def pathOf (location : Location) : String := "/" ++ String.intercalate "/" location

/-- Adds what stands at a location to the picture. -/
def observe (tree : FileTree) (location : Location) : IO FileTree := do
  let path := (← IO.currentDir) / pathOf location
  if ← path.isDir then return tree.put location .directory
  if ← path.pathExists then
    try
      return tree.put location (.file (← IO.FS.readBinFile path) false)
    catch _ => return tree
  return tree

/-- Adds all that a path leads through. -/
def observeFrom (tree : FileTree) (location : Location) : List String → IO FileTree
  | [] => return tree
  | segment :: segments => do
    if segment = "" || segment = "." then observeFrom tree location segments
    else
      let next := if segment = ".." then location.dropLast else location ++ [segment]
      let tree ← if next = [] then pure tree else observe tree next
      observeFrom tree next segments

def observePath (tree : FileTree) (path : String) : IO FileTree :=
  observeFrom tree (tree.origin path) (Path.segments path)

/-- Adds the variables with the given names, as far as they are set. -/
def observeVariables (environment : Environment) (names : List String) : IO Environment := do
  let mut environment := environment
  for name in names do
    if let some value ← IO.getEnv name then
      environment := environment ++ [(name, value)]
  return environment

/-- The paths that a request names. -/
def pathsOf : CommandLine.Request → List String
  | .build common input options =>
    common.config.toList ++ [input, options.output.getD (Path.withExtension input "sh")]
  | .dumpConfig common => common.config.toList
  | _ => []

/-- Writes what is new or changed. -/
def carryOut (before after : FileTree) : IO Unit := do
  for (location, content, executable) in after.changedSince before do
    let path := (← IO.currentDir) / pathOf location
    if let some directory := path.parent then IO.FS.createDirAll directory
    IO.FS.writeBinFile path content
    if executable then
      let all : IO.AccessRight := { read := true, write := true, execution := true }
      let use : IO.AccessRight := { read := true, execution := true }
      IO.setAccessRights path { user := all, group := use, other := use }

/-- The picture that a run with the given arguments starts from. -/
def picture (arguments : List String) : IO CommandLine.Machine := do
  let environment ← observeVariables [] ["HOME"]
  let current := (Path.segments (← IO.currentDir).toString).filter fun s => s ≠ ""
  let mut files ← observeFrom { current } [] current
  match CommandLine.Request.ofArguments arguments with
  | none => return { environment, files }
  | some request =>
    for path in Config.userPath environment :: pathsOf request do
      files ← observePath files path
    if let .build common .. := request then
      if let .ok config := CommandLine.loadConfig { environment, files } common then
        let environment ←
          observeVariables environment (Config.variablesIn config.settings.logFile)
        if let .ok (some path) := config.logPath? environment then
          files ← observePath files path
        return { environment, files }
    return { environment, files }

end CheckedScript.Main

def main (arguments : List String) : IO UInt32 := do
  let machine ← CheckedScript.Main.picture arguments
  let outcome := CheckedScript.CommandLine.run machine arguments
  CheckedScript.Main.carryOut machine.files outcome.files
  IO.print outcome.stdout
  IO.eprint outcome.stderr
  return outcome.exitCode.toUInt32
