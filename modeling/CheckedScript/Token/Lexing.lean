import CheckedScript.Run
import CheckedScript.Token.Layout
import CheckedScript.Token.Rule

/-!
Lexing: the fragments of a source are classified, and the layout passes turn them into the
tokens that the grammar reads.
-/

namespace CheckedScript.Token

/-- Runs the passes one after the other. -/
def runPasses : List Pass → List Token → Run (List Token)
  | [], ts => pure ts
  | pass :: passes, ts => do
    let ts ← Run.ofExcept (pass.run ts)
    Run.report .trace .lexing
      ("after " ++ pass.name ++ ": " ++ toString ts.length ++ " tokens")
    runPasses passes ts

/-- The tokens of `fragments`. -/
def lex (rules : List Rule) (fragments : List Fragment) : Run (List Token) := do
  let ts := fragments.map (ofFragment rules)
  Run.report .trace .lexing ("classified " ++ toString ts.length ++ " fragments")
  runPasses Pass.all ts

/-- The tokens of a source labelled `file`, by the rules of the language. -/
def ofSource (file : Option String) (source : String) : Run (List Token) :=
  lex Rule.standard (Fragment.ofSource file source)

end CheckedScript.Token
