import CheckedScript.CommandLine.Arguments
import CheckedScript.Compiler
import CheckedScript.Config.Loading
import CheckedScript.Program.Dump

/-!
The command line program: what it prints, how it ends, and what it leaves in the file tree.

Reading arguments and overlays, expanding paths, judging scripts and writing log lines are the
work of general libraries. A run takes them from its machine as `Packages`, of which
`Packages.standard` is this library's own reading.
-/

namespace CheckedScript.CommandLine

/-- What the program leaves to others. -/
structure Packages where
  /-- What a command line asks for. -/
  request? : List String → Option Request
  /-- The overlay that a text writes. -/
  overlay? : String → Option Config.Overlay
  /-- Expands a leading `~`. -/
  expandHome : Environment → String → String
  /-- Expands variables and a leading `~`, or names a variable that is not set. -/
  expandPath : Environment → String → Except String String
  /-- Judges a finished script. -/
  valid : String → Bool
  /-- How log entries are written down. -/
  format : Log.Format

/-- The packages as this library has them, for a user whose account has the given home
directory. -/
def Packages.standard (account : Option String := none) : Packages where
  request? := Request.ofArguments
  overlay? := Config.Overlay.ofToml?
  expandHome environment path := Config.expandHome environment path account
  expandPath environment raw := Config.expandPath environment raw account
  valid := Script.isValid
  format := {}

/-- What a run of the program starts from. -/
structure Machine where
  environment : Environment
  files : FileTree
  packages : Packages := .standard

/-- How a run of the program ends. -/
structure Outcome where
  exitCode : Nat
  stdout : String := ""
  stderr : String := ""
  files : FileTree

/-- Why a run fails. -/
inductive Failure
  | files (message : String)
  | config (error : ConfigError)
  | compile (error : CompileError)

namespace Failure

def message : Failure → String
  | files message => message
  | config error => "config: " ++ error.message
  | compile error =>
    error.message ++ String.join (error.causes.map fun cause => "\n  caused by: " ++ cause)

/-- The lines on the standard error stream. -/
def report (failure : Failure) : String := "blowk: " ++ failure.message ++ "\n"

def exitCode : Failure → Nat
  | files _ => 1
  | config _ => 1
  | compile error => error.kind.exitCode

end Failure

/-- The files, what has been printed, and where build records go. -/
structure State where
  files : FileTree
  stdout : String := ""
  stderr : String := ""
  level : Log.Level := .warn
  /-- The build log, if it could be opened. -/
  buildLog : Option String := none
  format : Log.Format := {}
  /-- How many entries have been shown on the standard error stream. -/
  shown : Nat := 0

namespace State

def print (state : State) (text : String) : State := { state with stdout := state.stdout ++ text }

/-- Writes a log entry where it belongs: a build record to the build log, any other to the
standard error stream if its level is within the limit. -/
def log (state : State) (entry : Log.Entry) : State :=
  if entry.origin = .buildRecord then
    match state.buildLog with
    | none => state
    | some path =>
      match state.files.append path (state.format.record entry ++ "\n") with
      | .ok files => { state with files }
      | .error _ => state
  else if entry.level.within state.level then
    { state with
      stderr := state.stderr ++ state.format.shown state.shown entry ++ "\n"
      shown := state.shown + 1 }
  else state

def logAll (state : State) (entries : List Log.Entry) : State := entries.foldl log state

/-- Ends a run. -/
def finish (state : State) : Outcome :=
  { exitCode := 0, stdout := state.stdout, stderr := state.stderr, files := state.files }

def fail (state : State) (failure : Failure) : Outcome :=
  { exitCode := failure.exitCode
    stdout := state.stdout
    stderr := state.stderr ++ failure.report
    files := state.files }

end State

/-- Opens the build log: its directory is made if need be, and the file if it is not there. A log
that cannot be opened is reported and done without. -/
def openLog (files : FileTree) (level : Log.Level) (path : Option String)
    (format : Log.Format := {}) : State :=
  match path with
  | none => { files, level, format }
  | some path =>
    let files := match Path.parent? path with
      | some directory => files.makeDirectories directory
      | none => files
    match files.append path "" with
    | .ok files => { files, level, buildLog := some path, format }
    | .error fault =>
      let state : State := { files, level, format }
      state.log ⟨.warn, .logging, "cannot open build log " ++ path ++ ": " ++ fault.message⟩

/-- Prints the value of a run, with its log, or fails. -/
def dump {α : Type} (state : State) (run : Run α) (toJson : α → Json) :
    State × Option CompileError :=
  let state := state.logAll run.log
  match run.result with
  | .ok value => (state.print ((toJson value).pretty 0 ++ "\n"), none)
  | .error e => (state, some e)

/-- Prints the tokens, the tree, or both. -/
def dumpSource (state : State) (config : Config) (options : BuildOptions) (label source : String) :
    Outcome :=
  let (state, error) := if options.dumpTokens
    then dump state (Compiler.tokens (some label) source) fun ts => .array (ts.map Token.toJson)
    else (state, none)
  match error with
  | some e => state.fail (.compile e)
  | none =>
    let (state, error) := if options.dumpAst
      then dump state (Compiler.parse config (some label) source) Program.toJson
      else (state, none)
    match error with
    | some e => state.fail (.compile e)
    | none => state.finish

/-- Writes the script to its place. A script that cannot be marked as executable stays there. -/
def writeScript (state : State) (input output script : String) : Outcome :=
  if Path.same output input then
    state.fail (.files ("refusing to overwrite the source file " ++ output))
  else match state.files.write output script with
    | .error fault => state.fail (.files ("cannot write " ++ output ++ ": " ++ fault.message))
    | .ok files => match files.makeExecutable output with
      | .error fault =>
        { state with files }.fail
          (.files ("cannot set mode on " ++ output ++ ": " ++ fault.message))
      | .ok files => ({ state with files }.log ⟨.info, .compiler, "wrote " ++ output⟩).finish

/-- Compiles `source`, records how that ended and writes the script. -/
def compileSource (valid : String → Bool) (state : State) (config : Config)
    (options : BuildOptions) (input source : String) : Outcome :=
  let run := Compiler.compileBy valid config (some input) source
  let state := (state.logAll run.log).log (recordEntry input run.result)
  match run.result with
  | .error e => state.fail (.compile e)
  | .ok script =>
    writeScript state input (options.output.getD (Path.withExtension input "sh")) script

/-- The configuration of a run. -/
def loadConfig (machine : Machine) (common : Common) : Except ConfigError Config := do
  let packages := machine.packages
  let config ← Config.load machine.environment machine.files packages.overlay? packages.expandHome
  match common.config with
  | some path => config.applyFile machine.files path packages.overlay?
  | none => return config

/-- The configuration of a build, and the path of its log. -/
def buildConfig (machine : Machine) (common : Common) (options : BuildOptions) :
    Except ConfigError (Config × Option String) := do
  let config ← loadConfig machine common
  let settings := { config.settings with
    lenient := config.settings.lenient || options.lenient
    verifyOutput := config.settings.verifyOutput && !options.noVerify }
  let config := { config with settings }
  return (config, ← config.logPath? machine.environment machine.packages.expandPath)

def build (machine : Machine) (common : Common) (input : String) (options : BuildOptions) :
    Outcome :=
  match buildConfig machine common options with
  | .error e => State.fail { files := machine.files } (.config e)
  | .ok (config, logPath) =>
    let level := Log.Level.ofVerbosity (common.verbosity.getD 0)
    let state := openLog machine.files level logPath machine.packages.format
    match state.files.readText input with
    | .error fault => state.fail (.files ("cannot read " ++ input ++ ": " ++ fault.message))
    | .ok source =>
      if options.dumpTokens || options.dumpAst then dumpSource state config options input source
      else compileSource machine.packages.valid state config options input source

def dumpConfig (machine : Machine) (common : Common) : Outcome :=
  let state : State := { files := machine.files }
  match loadConfig machine common with
  | .error e => state.fail (.config e)
  | .ok config => (state.print config.toToml).finish

def versionText : String := "blowk 0.1.0\n"

def usageText : String :=
  "usage: blowk [--config FILE] [-v] build FILE [-o FILE] [--lenient] [--no-verify]\n"
    ++ "             [--dump-tokens] [--dump-ast]\n"
    ++ "       blowk [--config FILE] [-v] dump-config\n"
    ++ "       blowk --version\n"

/-- Runs the program. -/
def run (machine : Machine) (arguments : List String) : Outcome :=
  match machine.packages.request? arguments with
  | none => { exitCode := 2, stderr := usageText, files := machine.files }
  | some .version => { exitCode := 0, stdout := versionText, files := machine.files }
  | some .help => { exitCode := 0, stdout := usageText, files := machine.files }
  | some (.dumpConfig common) => dumpConfig machine common
  | some (.build common input options) => build machine common input options

end CheckedScript.CommandLine
