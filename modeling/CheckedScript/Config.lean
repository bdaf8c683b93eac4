import CheckedScript.Program.Builder
import CheckedScript.Script
import CheckedScript.Toml.Writer

/-!
Configuration: the settings of a compilation, their default values and their TOML text.
-/

namespace CheckedScript

namespace Config

structure Settings where
  /-- Skip what no rule of the grammar matches. -/
  lenient : Bool := false
  maxDepth : Nat := 64
  /-- Check the finished script. -/
  verifyOutput : Bool := false
  /-- Where build records go, before expansion; blank for nowhere. -/
  logFile : String := ""
deriving DecidableEq, Repr

structure Commands where
  /-- Commands that every script checks for. -/
  implicit : List String := []
deriving DecidableEq, Repr

structure Output where
  shebang : String := ""
  indent : String := "\t"
  firstExitCode : UInt8 := 213
deriving DecidableEq, Repr

end Config

/-- The configuration. Left to itself, a field has the value it takes in a configuration that
does not mention it. -/
structure Config where
  settings : Config.Settings := {}
  commands : Config.Commands := {}
  output : Config.Output := {}
deriving DecidableEq, Repr

namespace Config

/-- The configuration that overlays start from. -/
def standard : Config where
  settings :=
    { lenient := false
      maxDepth := 64
      verifyOutput := true
      logFile := "~/.local/share/blowk/builds.log" }
  commands := { implicit := ["which", "echo"] }
  output := { shebang := "#!/usr/bin/env bash", indent := "\t", firstExitCode := 213 }

def buildOptions (config : Config) : BuildOptions :=
  { lenient := config.settings.lenient, maxDepth := config.settings.maxDepth }

def scriptOptions (config : Config) : Script.Options where
  shebang := config.output.shebang
  indent := config.output.indent
  implicit := config.commands.implicit
  firstStatus := config.output.firstExitCode
  verify := config.settings.verifyOutput

/-- The configuration as a TOML document. -/
def toToml (config : Config) : String :=
  "[settings]\n"
    ++ "lenient = " ++ Toml.writeBool config.settings.lenient ++ "\n"
    ++ "max_depth = " ++ toString config.settings.maxDepth ++ "\n"
    ++ "verify_output = " ++ Toml.writeBool config.settings.verifyOutput ++ "\n"
    ++ "log_file = " ++ Toml.writeString config.settings.logFile ++ "\n"
    ++ "\n[commands]\n"
    ++ "implicit = " ++ Toml.writeStrings config.commands.implicit ++ "\n"
    ++ "\n[output]\n"
    ++ "shebang = " ++ Toml.writeString config.output.shebang ++ "\n"
    ++ "indent = " ++ Toml.writeString config.output.indent ++ "\n"
    ++ "first_exit_code = " ++ toString config.output.firstExitCode.toNat ++ "\n"

end Config

end CheckedScript
