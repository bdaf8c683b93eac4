import CheckedScript.Config.LogPath
import CheckedScript.Config.Reader
import CheckedScript.FileTree

/-!
Loading the configuration: the standard one, the overlay in the user's home directory if there is
one, and an overlay that is asked for by name. How a text is read as an overlay, and how a path is
expanded, are parameters with this library's own ways as their default. Errors of the TOML reader
have no details.
-/

namespace CheckedScript

/-- Why a configuration cannot be used. -/
inductive ConfigError
  | unreadable (path : String) (fault : FileFault)
  | malformed (path : String)
  | unsetVariable (logFile name : String)
deriving DecidableEq, Repr

def ConfigError.message : ConfigError → String
  | unreadable path fault => "cannot read " ++ path ++ ": " ++ fault.message
  | malformed path => path ++ ": TOML parse error"
  | unsetVariable logFile name =>
    "cannot expand log path `" ++ logFile ++ "`: error looking key \x27" ++ name
      ++ "\x27 up: environment variable not found"

namespace Config

/-- Where the user's overlay stands. -/
def userPath (environment : Environment)
    (expand : Environment → String → String := (expandHome · ·)) : String :=
  expand environment "~/.config/blowk/config.toml"

/-- Merges the overlay that `text`, read from `path`, writes. -/
def applyText (config : Config) (path text : String)
    (overlay? : String → Option Overlay := Overlay.ofToml?) : Except ConfigError Config :=
  match overlay? text with
  | some overlay => .ok (config.apply overlay)
  | none => .error (.malformed path)

/-- Merges the overlay at `path`, which must be there. -/
def applyFile (config : Config) (files : FileTree) (path : String)
    (overlay? : String → Option Overlay := Overlay.ofToml?) : Except ConfigError Config :=
  match files.readText path with
  | .ok text => config.applyText path text overlay?
  | .error fault => .error (.unreadable path fault)

/-- The standard configuration with the overlay at `path`, if there is one. -/
def loadFrom (files : FileTree) (path : String)
    (overlay? : String → Option Overlay := Overlay.ofToml?) : Except ConfigError Config :=
  match files.readText path with
  | .ok text => standard.applyText path text overlay?
  | .error .notFound => .ok standard
  | .error fault => .error (.unreadable path fault)

/-- The standard configuration with the user's overlay. -/
def load (environment : Environment) (files : FileTree)
    (overlay? : String → Option Overlay := Overlay.ofToml?)
    (expand : Environment → String → String := (expandHome · ·)) : Except ConfigError Config :=
  loadFrom files (userPath environment expand) overlay?

/-- The path of the build log, if there is one. -/
def logPath? (config : Config) (environment : Environment)
    (expand : Environment → String → Except String String := (expandPath · ·)) :
    Except ConfigError (Option String) :=
  (config.logPath environment expand).mapError (.unsetVariable config.settings.logFile)

end Config

end CheckedScript
