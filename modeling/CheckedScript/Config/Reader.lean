import CheckedScript.Config.Overlay

/-!
Reading overlays and whole configurations from TOML. A section is a table, or an array that
lists its fields in order. What the configuration does not know is ignored; a known field of the
wrong type makes the document unusable.
-/

namespace CheckedScript.Config

open Toml (Value Entries)

/-- A section by its field names, or by the order of its fields. -/
inductive Section
  | named (entries : Entries)
  | listed (values : List Value)

namespace Section

/-- The section that a value gives. A date is a section without known fields. -/
def ofValue? : Value → Option Section
  | .table _ entries => some (named entries)
  | .array values => some (listed values)
  | .tables elements => some (listed elements)
  | .datetime => some (named [])
  | _ => none

/-- The section of a document; one that is not there has no fields. -/
def ofDocument? (document : Entries) (name : String) : Option Section :=
  match document.get? name with
  | some value => ofValue? value
  | none => some (named [])

/-- Whether the section lists at least `count` fields, if it lists any. -/
def isComplete (count : Nat) : Section → Bool
  | named _ => true
  | listed values => count ≤ values.length

/-- Reads the field with this name and place: `none` if it is there with the wrong type. -/
def field? {α : Type} (s : Section) (place : Nat) (name : String) (read : Value → Option α) :
    Option (Option α) :=
  let value := match s with
    | named entries => entries.get? name
    | listed values => values[place]?
  match value with
  | some value => (read value).map some
  | none => some none

end Section

def readBool : Value → Option Bool
  | .boolean b => some b
  | _ => none

def readString : Value → Option String
  | .string s => some s
  | _ => none

def readNat : Value → Option Nat
  | .integer (.ofNat n) => some n
  | _ => none

def readByte (value : Value) : Option UInt8 :=
  (readNat value).bind fun n => if n < 256 then some (UInt8.ofNat n) else none

def readStrings : Value → Option (List String)
  | .array values => values.mapM readString
  | _ => none

def readSettings (s : Section) : Option SettingsOverlay := do
  return { lenient := ← s.field? 0 "lenient" readBool
           maxDepth := ← s.field? 1 "max_depth" readNat
           verifyOutput := ← s.field? 2 "verify_output" readBool
           logFile := ← s.field? 3 "log_file" readString }

def readOutput (s : Section) : Option OutputOverlay := do
  return { shebang := ← s.field? 0 "shebang" readString
           indent := ← s.field? 1 "indent" readString
           firstExitCode := ← s.field? 2 "first_exit_code" readByte }

def readCommands (s : Section) : Option CommandsOverlay := do
  let replace ← s.field? 0 "replace" readBool
  let implicit ← s.field? 1 "implicit" readStrings
  let removeImplicit ← s.field? 2 "remove_implicit" readStrings
  return { replace := replace.getD false
           implicit := implicit.getD []
           removeImplicit := removeImplicit.getD [] }

/-- The overlay that a document writes. Listed settings and output fields must be complete. -/
def Overlay.ofToml? (text : String) : Option Overlay := do
  let document ← Toml.ofText? text
  let settings ← Section.ofDocument? document "settings"
  let commands ← Section.ofDocument? document "commands"
  let output ← Section.ofDocument? document "output"
  if settings.isComplete 4 && output.isComplete 3 then
    return { settings := ← readSettings settings
             commands := ← readCommands commands
             output := ← readOutput output }
  else none

/-- The whole configuration that a document writes; what it leaves out has its field's value. -/
def ofToml? (text : String) : Option Config := do
  let document ← Toml.ofText? text
  let settings ← readSettings (← Section.ofDocument? document "settings")
  let commands ← Section.ofDocument? document "commands"
  let implicit ← commands.field? 0 "implicit" readStrings
  let output ← readOutput (← Section.ofDocument? document "output")
  return { settings := settings.applyTo {}
           commands := { implicit := implicit.getD [] }
           output := output.applyTo {} }

/-- Merges the overlays that the given documents write, in order. -/
def applyAll? (config : Config) : List String → Option Config
  | [] => some config
  | text :: texts =>
    match Overlay.ofToml? text with
    | some overlay => applyAll? (config.apply overlay) texts
    | none => none

end CheckedScript.Config
