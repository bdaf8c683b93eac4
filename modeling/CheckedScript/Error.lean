import CheckedScript.Position
import CheckedScript.Regex.Fault

/-!
The errors of a compilation: what is wrong with the source, why no script can be written, and
how each error reads, with its position, its chain of causes and its process status.
-/

namespace CheckedScript

/-- What is wrong with the tokens of a program. -/
inductive SourceFault
  | unterminatedString
  | expected (what : String)
  | secondAlias (command : String)
  | notAType (text : String)
  | secondReturnType (function : String)
  | unclosedBody (function : String)
  | malformedParameter (text : String)
  | endOfInput
  | malformedImport
  | malformedFunction (name : String)
  | nestedFunction (name : String)
  | strayInvocation
  | malformedInvocation
  | unexpected (text : String)
  /-- A fault in the words of whoever reports it. -/
  | stated (message : String)
deriving DecidableEq, Repr

def SourceFault.message : SourceFault → String
  | unterminatedString => "unterminated string literal"
  | expected what => "expected " ++ what
  | secondAlias command => "import `" ++ command ++ "` declares more than one alias"
  | notAType text => "`" ++ text ++ "` is not a type"
  | secondReturnType function =>
    "function `" ++ function ++ "` declares more than one return type"
  | unclosedBody function => "unclosed body of function `" ++ function ++ "`"
  | malformedParameter text => "malformed parameter near `" ++ text ++ "`"
  | endOfInput => "unexpected end of input"
  | malformedImport => "malformed import declaration"
  | malformedFunction name => "malformed declaration of function `" ++ name ++ "`"
  | nestedFunction name =>
    "function `" ++ name ++ "` cannot be declared inside another function"
  | strayInvocation => "command invocations are only allowed inside a function body"
  | malformedInvocation => "malformed command invocation"
  | unexpected text => "unexpected `" ++ text ++ "`"
  | stated message => message

/-- What a helper function's name must not coincide with. -/
inductive Clash
  | helper
  | implicitCommand
  | importedCommand
  | aliasOf (command : String)
deriving DecidableEq, Repr

def Clash.message (name : String) : Clash → String
  | helper => "is declared more than once"
  | implicitCommand => "would shadow the implicit command `" ++ name ++ "`"
  | importedCommand => "would shadow the imported command `" ++ name ++ "`"
  | aliasOf command => "would shadow the alias `" ++ name ++ "` of `" ++ command ++ "`"

/-- Why a program has no script. -/
inductive ScriptFault
  | noStatusLeft (command : String)
  | secondMain (position : Position)
  | nameClash (position : Position) (name : String) (clash : Clash)
  | strayParameter (name : String)
  | nestedRoot
  /-- The script that was written is not well formed. -/
  | invalidScript
  /-- The fault lies in the described node. -/
  | inNode (description : String)
  /-- A fault in the words of whoever reports it. -/
  | stated (message : String)
deriving DecidableEq, Repr

def ScriptFault.message : ScriptFault → String
  | noStatusLeft command => "no exit status left for the check of `" ++ command ++ "`"
  | secondMain position => position.text ++ ": function `main` is declared more than once"
  | nameClash position name clash =>
    position.text ++ ": function `" ++ name ++ "` " ++ clash.message name
  | strayParameter name => "parameter `" ++ name ++ "` outside a parameter list"
  | nestedRoot => "nested root node"
  | invalidScript => "generated script is not valid bash"
  | inNode description => description
  | stated message => message

/-- The one error with which a compilation ends. -/
inductive CompileError
  /-- A classification rule whose pattern cannot be read. -/
  | classification (pattern : String) (fault : Regex.Fault)
  /-- Tokens that no rule of the grammar accepts. -/
  | malformed (fault : SourceFault) (position : Option Position)
  | nestingTooDeep (limit : Nat) (position : Option Position)
  /-- An invoked command that no import provides. -/
  | unresolved (command : String) (position : Option Position)
  /-- A program that no script can be written for. -/
  | generation (fault : ScriptFault) (cause : Option CompileError)
deriving Repr

namespace CompileError

/-- The stage that an error belongs to. -/
inductive Kind
  | classification
  | parsing
  | resolution
  | generation
deriving DecidableEq, Repr

def Kind.name : Kind → String
  | classification => "lexical classification failure"
  | parsing => "syntax error"
  | resolution => "unresolved command"
  | generation => "code generation error"

/-- The process status for an error of this kind; 1 and 2 are left to failures around the
compilation. -/
def Kind.exitCode : Kind → Nat
  | classification => 3
  | parsing => 4
  | resolution => 5
  | generation => 6

def kind : CompileError → Kind
  | classification .. => .classification
  | malformed .. => .parsing
  | nestingTooDeep .. => .parsing
  | unresolved .. => .resolution
  | generation .. => .generation

/-- The position in front of a message. -/
def at? (position : Option Position) : String :=
  match position with
  | some p => p.text ++ ": "
  | none => ""

def message : CompileError → String
  | classification pattern fault =>
    "invalid token matcher `" ++ pattern ++ "`: " ++ fault.message
  | malformed fault position => at? position ++ "syntax error: " ++ fault.message
  | nestingTooDeep limit position =>
    at? position ++ "syntax error: nesting deeper than " ++ toString limit ++ " levels"
  | unresolved command position =>
    at? position ++ "command `" ++ command ++ "` is not imported"
  | generation fault _ => "code generation failed: " ++ fault.message

/-- Where the error stands in the source, if it is known; a generation error stands where its
innermost cause does. -/
def position : CompileError → Option Position
  | classification .. => none
  | malformed _ position => position
  | nestingTooDeep _ position => position
  | unresolved _ position => position
  | generation _ (some cause) => cause.position
  | generation _ none => none

/-- The messages of the causes, the outermost first. -/
def causes : CompileError → List String
  | classification _ fault => [fault.message]
  | generation _ (some cause) => cause.message :: cause.causes
  | _ => []

end CompileError

end CheckedScript
