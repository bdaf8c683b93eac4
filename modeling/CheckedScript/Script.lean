import CheckedScript.Imports
import CheckedScript.Script.Guard
import CheckedScript.Script.Validity

/-!
Writing the script of a resolved program. Its sections are the shebang line, the checks of the
implicit commands, one check for each imported command, the helper functions, and the body of
`main`.
-/

namespace CheckedScript

namespace Script

structure Options where
  shebang : String
  indent : String
  /-- Commands that every script checks for. -/
  implicit : List String
  /-- The exit status of the first check. -/
  firstStatus : UInt8
  /-- Whether the finished script is checked for validity. -/
  verify : Bool
deriving DecidableEq, Repr

/-- A command line: the arguments are quoted as they stand. -/
def renderCommand (command : Command) : String :=
  command.args.foldl (fun line arg => line ++ " \"" ++ arg ++ "\"") command.name

/-- The line that binds the parameter at `index`, counted from 1; an array takes all arguments
from there on. -/
def bindParam (param : Param) (index : Nat) : String :=
  match param.type with
  | .string => "local " ++ param.name ++ "=\"$" ++ toString index ++ "\""
  | .stringArray => "local " ++ param.name ++ "=(\"$\x7b@:" ++ toString index ++ "\x7d\")"

def indented (indent : String) (level : Nat) (text : String) : String :=
  String.join (List.replicate level indent) ++ text

/-- Places an error inside the node it arose in. -/
def within {α : Type} (node : Node) (r : Except CompileError α) : Except CompileError α :=
  r.mapError fun e => .generation (.inNode node.describe) (some e)

/-- The lines of a function around the lines of its body. An empty body is written `:`. -/
def functionLines (indent : String) (level : Nat) (signature : Signature) (body : List String) :
    List String :=
  let params := signature.params.zipIdx.map fun (param, i) =>
    indented indent (level + 1) (bindParam param (i + 1))
  let inner := params ++ body
  [indented indent level (signature.name ++ "() \x7b")]
    ++ (if inner.isEmpty then [indented indent (level + 1) ":"] else inner)
    ++ [indented indent level "\x7d"]

mutual

/-- The lines of a node. Imports have been checked for and comments are dropped. -/
def emit (indent : String) (level : Nat) : Node → Except CompileError (List String)
  | .importing _ => .ok []
  | .comment _ => .ok []
  | .invocation command => .ok [indented indent level (renderCommand command)]
  | .expression command => .ok [indented indent level (renderCommand command)]
  | .function signature body =>
    (emitAll indent (level + 1) body).map (functionLines indent level signature)
  | .param declaration => .error (.generation (.strayParameter declaration.name) none)
  | .root _ => .error (.generation .nestedRoot none)

def emitAll (indent : String) (level : Nat) : List Node → Except CompileError (List String)
  | [] => .ok []
  | node :: nodes =>
    match within node (emit indent level node) with
    | .error e => .error e
    | .ok lines => (emitAll indent level nodes).map (lines ++ ·)

end

/-- The lines of a node that stands in no function. -/
def emitOutermost (indent : String) (node : Node) : Except CompileError (List String) :=
  within node (emit indent 0 node)

def joinLines (lines : List String) : String := String.intercalate "\n" lines

/-- What the name of a helper function coincides with, if anything. -/
def clash? (implicit : List String) (imports : List Import) (helpers : List String)
    (name : String) : Option Clash :=
  if helpers.contains name then some .helper
  else if implicit.contains name then some .implicitCommand
  else match Import.lookup imports name with
    | some .name => some .importedCommand
    | some (.aliasOf command) => some (.aliasOf command)
    | none => none

/-- The names of the imports that need a check of their own, each once. -/
def guardedNames (implicit : List String) (imports : List Import) : List String :=
  (imports.map (·.name)).foldl
    (fun names name => if implicit.contains name || names.contains name then names
      else names ++ [name]) []

/-- What stands at top level: the sections to write in place, and the body of `main`. -/
structure Outline where
  sections : List String := []
  main : Option (List Node) := none

/-- Reads the top level from left to right. `helpers` are the functions written so far. -/
def outline (options : Options) (imports : List Import) (helpers : List String)
    (main : Option (List Node)) : List Node → Except CompileError Outline
  | [] => .ok { main }
  | .function signature body :: nodes =>
    if signature.name = "main" then
      if main.isSome then .error (.generation (.secondMain signature.position) none)
      else outline options imports helpers (some body) nodes
    else match clash? options.implicit imports helpers signature.name with
      | some clash =>
        .error (.generation (.nameClash signature.position signature.name clash) none)
      | none =>
        match emitOutermost options.indent (.function signature body) with
        | .error e => .error e
        | .ok lines =>
          (outline options imports (helpers ++ [signature.name]) main nodes).map fun rest =>
            { rest with sections := joinLines lines :: rest.sections }
  | node :: nodes =>
    match emitOutermost options.indent node with
    | .error e => .error e
    | .ok lines =>
      (outline options imports helpers main nodes).map fun rest =>
        if lines.isEmpty then rest
        else { rest with sections := joinLines lines :: rest.sections }

/-- The section that runs the body of `main`. -/
def mainSection (indent : String) (body : List Node) : Except CompileError String :=
  (emitAll indent 0 body).map fun lines => joinLines ("# main code" :: lines)

/-- The sections that check for commands. -/
def guardSections (options : Options) (imports : List Import) :
    Except CompileError (List String) :=
  match preamble options.implicit options.indent (Statuses.startingAt options.firstStatus) with
  | (.error e, _) => .error e
  | (.ok text, statuses) =>
    (importGuards options.indent statuses (guardedNames options.implicit imports)).map fun guards =>
      (if text.isEmpty then [] else [text]) ++ guards

/-- The script made of the given sections. -/
def assemble (sections : List String) : String := String.intercalate "\n\n" sections ++ "\n"

/-- The script of a program; `valid` judges the finished text if the options ask for it. -/
def generateBy (valid : String → Bool) (options : Options) (program : Program) : Run String := do
  let imports := program.imports
  let shebang := if options.shebang.isEmpty then [] else [options.shebang]
  let guards ← Run.ofExcept (guardSections options imports)
  let top ← Run.ofExcept (outline options imports [] none program.children)
  let main ← match top.main with
    | some body => do
      let text ← Run.ofExcept (mainSection options.indent body)
      pure [text]
    | none => do
      Run.report .warn .generation "no `main` function; the script only runs its checks"
      pure []
  let script := assemble (shebang ++ guards ++ top.sections ++ main)
  if options.verify then
    if valid script then
      Run.report .debug .generation "generated script parsed cleanly"
      return script
    else Run.fail (.generation .invalidScript none)
  else return script

def generate (options : Options) (program : Program) : Run String :=
  generateBy isValid options program

end Script

end CheckedScript
