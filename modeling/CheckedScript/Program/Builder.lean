import CheckedScript.Program.Grammar
import CheckedScript.Run

/-!
Building a program from tokens. The rules of a scope are tried in order and the first that
matches takes its tokens. Where none matches, a strict builder fails and a lenient one skips one
token with a warning. A function's body is built by the rules for bodies, one level deeper.
-/

namespace CheckedScript

structure BuildOptions where
  /-- Skip what no rule matches. -/
  lenient : Bool := false
  /-- The deepest nesting of bodies that is accepted. -/
  maxDepth : Nat := 64
deriving DecidableEq, Repr

/-- A statement form: its name, the tokens it covers and the node it makes of them. -/
structure Rule where
  name : String
  pattern : Pattern
  build : List Token → Run Node

namespace Rule

def importing : Rule :=
  ⟨"import", Grammar.importPattern, fun ts => Run.ofExcept (Grammar.readImport ts)⟩

def comment : Rule :=
  ⟨"comment", Grammar.commentPattern, fun ts => Run.ofExcept (Grammar.readComment ts)⟩

def invocation : Rule :=
  ⟨"command invocation", Grammar.invocationPattern,
    fun ts => Run.ofExcept (Grammar.readInvocation ts)⟩

/-- The rules of a function body. -/
def body : List Rule := [invocation, comment]

end Rule

/-- Builds statements of one scope at one depth. -/
structure Builder where
  scope : Scope := .topLevel
  options : BuildOptions := {}
  depth : Nat := 0
deriving DecidableEq, Repr

namespace Builder

/-- The builder for what stands in the block that `opener` opens, one level deeper. -/
def nested (b : Builder) (scope : Scope) (opener : Token) : Except CompileError Builder :=
  if b.depth + 1 ≤ b.options.maxDepth then
    .ok { b with scope, depth := b.depth + 1 }
  else .error (.nestingTooDeep b.options.maxDepth (some opener.position))

/-- The node of the first rule that matches at the front of `ts`, which starts at `offset`, and
the number of tokens it covers. -/
def stepBy (offset : Nat) (ts : List Token) : List Rule → Run (Option (Node × Nat))
  | [] => pure none
  | rule :: rules =>
    match rule.pattern.matchLength ts with
    | some (n + 1) => do
      Run.report .trace .building
        ("rule `" ++ rule.name ++ "` matched " ++ toString (n + 1) ++ " tokens at "
          ++ toString offset)
      let node ← rule.build (ts.take (n + 1))
      return some (node, n + 1)
    | _ => stepBy offset ts rules

/-- The nodes of `ts`, which starts at `offset`, by the given rules. -/
def nodesBy (scope : Scope) (lenient : Bool) (rules : List Rule) (offset : Nat) :
    List Token → Run (List Node)
  | [] => pure []
  | t :: ts =>
    if t.kind = .semicolon then nodesBy scope lenient rules (offset + 1) ts
    else do
      match ← stepBy offset (t :: ts) rules with
      | some (node, n) =>
        let nodes ← nodesBy scope lenient rules (offset + n) (ts.drop (n - 1))
        return node :: nodes
      | none =>
        let fault := scope.diagnose (t :: ts)
        if lenient then
          Run.report .warn .building
            (t.position.text ++ ": skipping `" ++ t.text ++ "`: " ++ fault.message)
          nodesBy scope lenient rules (offset + 1) ts
        else Run.fail (.malformed fault (some t.position))
termination_by ts => ts.length
decreasing_by all_goals (simp only [List.length_drop, List.length_cons]; omega)

/-- Builds all of `ts` by the given rules. -/
def buildBy (b : Builder) (rules : List Rule) (ts : List Token) : Run Program := do
  let nodes ← nodesBy b.scope b.options.lenient rules 0 ts
  Run.report .debug .building
    ("built " ++ toString nodes.length ++ " nodes at depth " ++ toString b.depth ++ " from "
      ++ toString ts.length ++ " tokens")
  return ⟨nodes⟩

/-- The function that `ts` declares, its body built one level below `b`. -/
def buildFunction (b : Builder) (ts : List Token) : Run Node := do
  let declaration ← Run.ofExcept (Grammar.readDeclaration ts)
  let inner ← Run.ofExcept (b.nested .functionBody declaration.opener)
  let body ← inner.buildBy Rule.body declaration.body
  return .function declaration.signature body.children

/-- The rules that a builder tries, in order. -/
def rules (b : Builder) : List Rule :=
  match b.scope with
  | .topLevel =>
    [Rule.importing, Rule.comment, ⟨"function", Grammar.functionPattern, b.buildFunction⟩]
  | .functionBody => Rule.body

/-- The node of the first rule that matches at `offset`, and the offset behind it. -/
def step (b : Builder) (ts : List Token) (offset : Nat) : Run (Option (Node × Nat)) := do
  let found ← stepBy offset (ts.drop offset) b.rules
  return found.map fun (node, n) => (node, offset + n)

/-- The program that `ts` writes. -/
def build (b : Builder) (ts : List Token) : Run Program := b.buildBy b.rules ts

end Builder

end CheckedScript
