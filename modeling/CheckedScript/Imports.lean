import CheckedScript.Program
import CheckedScript.Run

/-!
Imports and resolution. The imports of a program are collected depth first. Every command of the
program must be the name or the alias of one of them, and an alias is replaced by the name it
stands for. Resolution stops at the first command that is neither.
-/

namespace CheckedScript

namespace Node

mutual

/-- The imports at and below a node, depth first. -/
def imports : Node → List Import
  | root children => importsAmong children
  | importing declaration => [declaration]
  | function _ body => importsAmong body
  | param _ => []
  | invocation _ => []
  | expression _ => []
  | comment _ => []

def importsAmong : List Node → List Import
  | [] => []
  | node :: nodes => node.imports ++ importsAmong nodes

end

end Node

def Program.imports (program : Program) : List Import := Node.importsAmong program.children

/-- How a command is imported. -/
inductive Resolution
  /-- The command is the name of an import. -/
  | name
  /-- The command is an alias of this import. -/
  | aliasOf (command : String)
deriving DecidableEq, Repr

namespace Import

/-- How this import provides `command`, if it does; its name counts before its alias. -/
def provides (declaration : Import) (command : String) : Option Resolution :=
  if declaration.name = command then some .name
  else if declaration.aliasName = some command then some (.aliasOf declaration.name)
  else none

/-- How the first of the imports to provide `command` does so. -/
def lookup (imports : List Import) (command : String) : Option Resolution :=
  imports.findSome? fun declaration => declaration.provides command

end Import

/-- A tree after resolution: complete, or as far as it came before the failure. -/
structure Resolved (α : Type) where
  tree : α
  log : List Log.Entry := []
  failure : Option CompileError := none

namespace Resolved

variable {α β : Type}

def map (f : α → β) (r : Resolved α) : Resolved β := ⟨f r.tree, r.log, r.failure⟩

/-- The resolved tree as the result of a run. -/
def toRun (r : Resolved α) : Run α :=
  ⟨r.log, match r.failure with
    | none => .ok r.tree
    | some e => .error e⟩

end Resolved

namespace Command

def resolve (imports : List Import) (command : Command) : Resolved Command :=
  match Import.lookup imports command.name with
  | some .name => { tree := command }
  | some (.aliasOf name) =>
    { tree := { command with name }
      log := [⟨.debug, .resolution,
        command.position.text ++ ": alias `" ++ command.name ++ "` -> `" ++ name ++ "`"⟩] }
  | none => { tree := command, failure := some (.unresolved command.name (some command.position)) }

end Command

namespace Node

mutual

def resolve (imports : List Import) : Node → Resolved Node
  | root children => (resolveAll imports children).map root
  | importing declaration => { tree := importing declaration }
  | function signature body => (resolveAll imports body).map (function signature)
  | param declaration => { tree := param declaration }
  | invocation command => (command.resolve imports).map invocation
  | expression command => (command.resolve imports).map expression
  | comment text => { tree := comment text }

/-- Resolves nodes in order, up to the first failure. -/
def resolveAll (imports : List Import) : List Node → Resolved (List Node)
  | [] => { tree := [] }
  | node :: nodes =>
    let first := node.resolve imports
    match first.failure with
    | some e => ⟨first.tree :: nodes, first.log, some e⟩
    | none =>
      let rest := resolveAll imports nodes
      ⟨first.tree :: rest.tree, first.log ++ rest.log, rest.failure⟩

end

end Node

/-- Resolves every command of a program against its imports. -/
def Program.resolve (program : Program) : Resolved Program :=
  let imports := program.imports
  let r := Node.resolveAll imports program.children
  let counted : Log.Entry :=
    ⟨.debug, .resolution, "collected " ++ toString imports.length ++ " imports"⟩
  ⟨⟨r.tree⟩, counted :: r.log, r.failure⟩

end CheckedScript
