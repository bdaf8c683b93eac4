import CheckedScript.Json
import CheckedScript.Program
import CheckedScript.Token

/-!
Tokens and programs as JSON. A program is dumped without positions.
-/

namespace CheckedScript

def Position.toJson (position : Position) : Json :=
  let place := [("line", .number position.line), ("column", .number position.column)]
  match position.file with
  | some file => .object (("file", .string file) :: place)
  | none => .object place

def Token.toJson (token : Token) : Json :=
  .object
    [("type", .string token.kind.name), ("text", .string token.text),
     ("position", token.position.toJson)]

def Param.fields (param : Param) : List (String × Json) :=
  [("name", .string param.name), ("param_type", .string param.type.name)]

def Command.fields (command : Command) : List (String × Json) :=
  [("command_name", .string command.name), ("args", .array (command.args.map .string))]

def Import.fields (declaration : Import) : List (String × Json) :=
  let alternative := match declaration.aliasName with
    | some other => [("alias", .string other)]
    | none => []
  ("name", .string declaration.name) :: alternative

def Signature.fields (signature : Signature) : List (String × Json) :=
  let returnType := match signature.returnType with
    | some type => .string type.name
    | none => .null
  [("name", .string signature.name),
   ("params", .array (signature.params.map fun param => .object param.fields)),
   ("return_type", returnType)]

namespace Node

mutual

def toJson : Node → Json
  | root children => .object [("type", .string "root"), ("children", .array (toJsonAll children))]
  | importing declaration => .object (("type", .string "import") :: declaration.fields)
  | function signature body =>
    .object (("type", .string "function") :: signature.fields
      ++ [("body", .array (toJsonAll body))])
  | param declaration => .object (("type", .string "param") :: declaration.fields)
  | invocation command =>
    .object [("type", .string "command_invocation"), ("command", .object command.fields)]
  | expression command => .object (("type", .string "command_expression") :: command.fields)
  | comment text => .object [("type", .string "comment"), ("text", .string text)]

def toJsonAll : List Node → List Json
  | [] => []
  | node :: nodes => node.toJson :: toJsonAll nodes

end

end Node

def Program.toJson (program : Program) : Json :=
  .object [("children", .array (Node.toJsonAll program.children))]

end CheckedScript
