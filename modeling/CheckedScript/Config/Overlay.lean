import CheckedScript.Config

/-!
Overlays: partial configurations that are merged into a configuration one after the other.
Scalars override; the list of implicit commands is extended, reduced or replaced.
-/

namespace CheckedScript.Config

structure SettingsOverlay where
  lenient : Option Bool := none
  maxDepth : Option Nat := none
  verifyOutput : Option Bool := none
  logFile : Option String := none
deriving DecidableEq, Repr

structure CommandsOverlay where
  /-- Take the list as it is in place of the present one. -/
  replace : Bool := false
  implicit : List String := []
  removeImplicit : List String := []
deriving DecidableEq, Repr

structure OutputOverlay where
  shebang : Option String := none
  indent : Option String := none
  firstExitCode : Option UInt8 := none
deriving DecidableEq, Repr

structure Overlay where
  settings : SettingsOverlay := {}
  commands : CommandsOverlay := {}
  output : OutputOverlay := {}
deriving DecidableEq, Repr

/-- Adds `item` at the end unless it is there already. -/
def pushNew (items : List String) (item : String) : List String :=
  if items.contains item then items else items ++ [item]

/-- Takes out what `remove` lists, then adds what is new in `add`; or takes `add` as it is. -/
def mergeList (base add remove : List String) (replace : Bool) : List String :=
  if replace then add
  else add.foldl pushNew (base.filter fun item => !remove.contains item)

def SettingsOverlay.applyTo (overlay : SettingsOverlay) (settings : Settings) : Settings where
  lenient := overlay.lenient.getD settings.lenient
  maxDepth := overlay.maxDepth.getD settings.maxDepth
  verifyOutput := overlay.verifyOutput.getD settings.verifyOutput
  logFile := overlay.logFile.getD settings.logFile

def CommandsOverlay.applyTo (overlay : CommandsOverlay) (commands : Commands) : Commands where
  implicit :=
    mergeList commands.implicit overlay.implicit overlay.removeImplicit overlay.replace

def OutputOverlay.applyTo (overlay : OutputOverlay) (output : Output) : Output where
  shebang := overlay.shebang.getD output.shebang
  indent := overlay.indent.getD output.indent
  firstExitCode := overlay.firstExitCode.getD output.firstExitCode

/-- The configuration with the overlay merged into it. -/
def apply (config : Config) (overlay : Overlay) : Config where
  settings := overlay.settings.applyTo config.settings
  commands := overlay.commands.applyTo config.commands
  output := overlay.output.applyTo config.output

end CheckedScript.Config
