import CheckedScript.Config
import CheckedScript.Token.Lexing

/-!
The compiler: source text to tokens, to a program, to a script. The file label only labels
positions. A build record sums up how a compilation ended.
-/

namespace CheckedScript

namespace Compiler

/-- The tokens of a source. -/
def tokens (file : Option String) (source : String) : Run (List Token) := do
  let fragments := Fragment.ofSource file source
  Run.report .debug .compiler (toString fragments.length ++ " raw tokens")
  Token.lex Token.Rule.standard fragments

/-- The program of a source, its commands not yet resolved. -/
def parse (config : Config) (file : Option String) (source : String) : Run Program := do
  let ts ← tokens file source
  let builder : Builder := { options := config.buildOptions }
  builder.build ts

/-- The script of a source; `valid` judges it if the configuration asks for that. -/
def compileBy (valid : String → Bool) (config : Config) (file : Option String) (source : String) :
    Run String := do
  let program ← parse config file source
  let resolved ← program.resolve.toRun
  Script.generateBy valid config.scriptOptions resolved

def compile (config : Config) (file : Option String) (source : String) : Run String :=
  compileBy Script.isValid config file source

end Compiler

/-- The number of lines of a text; what follows the last line feed counts if it is not empty. -/
def lineCount (text : String) : Nat :=
  let cs := text.toList
  cs.count '\n' + if cs.isEmpty || cs.getLast? = some '\n' then 0 else 1

/-- The record of a build of `input`: input, outcome and detail on one line, parted by tabs. -/
def buildRecord (input : String) (result : Except CompileError String) : String :=
  match result with
  | .ok script => input ++ "\tok\t" ++ toString (lineCount script) ++ " lines"
  | .error e =>
    let oneLine := String.join (e.message.toList.map fun c =>
      if c = '\n' then "; " else String.singleton c)
    input ++ "\t" ++ e.kind.name ++ "\t" ++ oneLine

/-- The log entry with the record of a build. -/
def recordEntry (input : String) (result : Except CompileError String) : Log.Entry :=
  ⟨.info, .buildRecord, buildRecord input result⟩

end CheckedScript
