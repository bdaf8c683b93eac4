import CheckedScript.Position

/-!
Programs as trees. A program is a list of nodes; functions and roots hold further nodes.
Positions are carried along for messages.
-/

namespace CheckedScript

/-- The types of parameters and results. -/
inductive ValueType
  | string
  | stringArray
deriving DecidableEq, Repr

/-- The spelling of a type in tree dumps. -/
def ValueType.name : ValueType → String
  | string => "string"
  | stringArray => "string_array"

/-- `import name as alias;` -/
structure Import where
  name : String
  aliasName : Option String := none
  position : Position := {}
deriving DecidableEq, Repr

structure Param where
  name : String
  type : ValueType
deriving DecidableEq, Repr

/-- A command with its arguments. -/
structure Command where
  name : String
  args : List String
  position : Position := {}
deriving DecidableEq, Repr

/-- A function without its body. -/
structure Signature where
  name : String
  params : List Param := []
  returnType : Option ValueType := none
  position : Position := {}
deriving DecidableEq, Repr

inductive Node
  | root (children : List Node)
  | importing (declaration : Import)
  | function (signature : Signature) (body : List Node)
  | param (declaration : Param)
  | invocation (command : Command)
  | expression (command : Command)
  | comment (text : String)
deriving Repr

namespace Node

/-- A short label for messages. -/
def describe : Node → String
  | root _ => "root"
  | importing declaration => "import `" ++ declaration.name ++ "`"
  | function signature _ => "function `" ++ signature.name ++ "`"
  | param declaration => "parameter `" ++ declaration.name ++ "`"
  | invocation command => "invocation of `" ++ command.name ++ "`"
  | expression command => "command `" ++ command.name ++ "`"
  | comment _ => "comment"

end Node

/-- A whole program. -/
structure Program where
  children : List Node
deriving Repr

namespace Program

/-- The names of the functions at top level. -/
def functionNames (program : Program) : List String :=
  program.children.filterMap fun
    | .function signature _ => some signature.name
    | _ => none

end Program

end CheckedScript
