import CheckedScript.Error
import CheckedScript.Pattern
import CheckedScript.Program

/-!
The grammar: for each kind of statement a pattern over tokens, and the reading of the tokens it
covers. The readings are total on their own, so each also says what is missing from tokens that
the pattern would not match.
-/

namespace CheckedScript

open Token (Kind)

/-- Where statements stand; it decides which of them are allowed. -/
inductive Scope
  | topLevel
  | functionBody
deriving DecidableEq, Repr

/-- What is wrong at the front of tokens that no statement matches. -/
def Scope.diagnose (scope : Scope) : List Token → SourceFault
  | [] => .endOfInput
  | t :: ts =>
    match scope, t.kind, ts.head?.map Token.kind with
    | _, .importKeyword, _ => .malformedImport
    | .topLevel, .identifier, some .colon => .malformedFunction t.text
    | .topLevel, .execMarker, _ => .strayInvocation
    | .functionBody, .identifier, some .colon => .nestedFunction t.text
    | .functionBody, .execMarker, _ => .malformedInvocation
    | _, _, _ => .unexpected t.text

namespace Grammar

/-- Any number of semicolons. -/
def terminators : Pattern := .zeroOrMore (.exact [.semicolon])

def types : List Kind := [.stringType, .stringArrayType]

def importPattern : Pattern :=
  .sequence
    [.exact [.importKeyword, .identifier], .zeroOrMore (.exact [.asKeyword, .identifier]),
     .exact [.semicolon], terminators]

def commentPattern : Pattern := .sequence [.exact [.comment], terminators]

def functionPattern : Pattern :=
  .sequence
    [.exact [.identifier, .colon, .openParen], .zeroOrMore (.other .closeParen),
     .exact [.closeParen, .colon], .zeroOrMore (.oneOf types),
     .block .openBrace .closeBrace, terminators]

def invocationPattern : Pattern :=
  .sequence
    [.exact [.execMarker, .identifier, .openSquare], .zeroOrMore (.other .closeSquare),
     .exact [.closeSquare], terminators]

/-- One parameter: a name, colons, a type. -/
def paramPattern : Pattern :=
  .sequence [.exact [.identifier], .zeroOrMore (.exact [.colon]), .oneOf types]

/-- The error for tokens that lack `what`, at the first of them. -/
def missing (what : String) (ts : List Token) : CompileError :=
  .malformed (.expected what) (ts.head?.map (·.position))

/-- The error for a fault at the token `t`. -/
def faultAt (t : Token) (fault : SourceFault) : CompileError :=
  .malformed fault (some t.position)

/-- The tokens that directly follow an `as`. -/
def aliases : List Token → List Token
  | a :: b :: ts => if a.kind = .asKeyword then b :: aliases (b :: ts) else aliases (b :: ts)
  | _ => []

def readImport : List Token → Except CompileError Node
  | keyword :: name :: ts =>
    match aliases ts with
    | [] => .ok (.importing ⟨name.text, none, keyword.position⟩)
    | [other] => .ok (.importing ⟨name.text, some other.text, keyword.position⟩)
    | _ :: extra :: _ => .error (faultAt extra (.secondAlias name.text))
  | ts => .error (missing "import name" ts)

def readComment : List Token → Except CompileError Node
  | t :: _ => .ok (.comment t.text)
  | [] => .error (missing "comment" [])

def readType (t : Token) : Except CompileError ValueType :=
  match t.kind with
  | .stringType => .ok .string
  | .stringArrayType => .ok .stringArray
  | _ => .error (faultAt t (.notAType t.text))

/-- Reads the tokens between the parentheses of a function. Commas and semicolons separate
parameters. -/
def readParams : List Token → Except CompileError (List Param)
  | [] => .ok []
  | t :: ts =>
    match paramPattern.matchLength (t :: ts) with
    | some n =>
      match readType ((t :: ts.take (n - 1)).getLast (by simp)) with
      | .error e => .error e
      | .ok type => (readParams (ts.drop (n - 1))).map (⟨t.text, type⟩ :: ·)
    | none =>
      match t.kind with
      | .comma | .semicolon => readParams ts
      | _ => .error (faultAt t (.malformedParameter t.text))
termination_by ts => ts.length
decreasing_by all_goals (simp only [List.length_drop, List.length_cons]; omega)

/-- Whether a token between the brackets of a command is no argument. -/
def separatesArgs : Kind → Bool
  | .comma | .semicolon | .comment => true
  | _ => false

/-- Reads a command name and, behind its bracket, the arguments up to the closing one. -/
def readCommand : List Token → Except CompileError Command
  | name :: opener :: ts =>
    if opener.kind = .openSquare then
      let inside := ts.takeWhile fun t => t.kind ≠ .closeSquare
      let args := inside.filter fun t => !separatesArgs t.kind
      .ok ⟨name.text, args.map (·.text), name.position⟩
    else .error (missing "`[`" (opener :: ts))
  | ts => .error (missing "command name" ts)

def readInvocation (ts : List Token) : Except CompileError Node :=
  (readCommand ts.tail).map .invocation

/-- Reads the return type from the tokens between `:` and the body of the function `name`. -/
def readReturnType (name : String) : List Token → Except CompileError (Option ValueType)
  | [] => .ok none
  | [t] => (readType t).map some
  | _ :: extra :: _ => .error (faultAt extra (.secondReturnType name))

/-- A function declaration taken apart: its signature, the brace that opens its body, and the
tokens between the braces. -/
structure Declaration where
  signature : Signature
  opener : Token
  body : List Token

/-- The tokens from `start` up to `stop`, if these bounds are in order. -/
def slice? (ts : List Token) (start stop : Nat) : Option (List Token) :=
  if start ≤ stop ∧ stop ≤ ts.length then some ((ts.take stop).drop start) else none

/-- Takes a function declaration apart: `name : ( params ) : type { body }`. -/
def readDeclaration : List Token → Except CompileError Declaration
  | [] => .error (missing "function name" [])
  | name :: rest => do
    let ts := name :: rest
    let close := ts.findIdx fun t => t.kind = .closeParen
    if close = ts.length then .error (missing "`)`" ts)
    let params ← match slice? ts 3 close with
      | some inside => readParams inside
      | none => .error (missing "`(`" ts)
    let behind := ts.drop close
    let brace := behind.findIdx fun t => t.kind = .openBrace
    match behind.drop brace with
    | [] => .error (missing "`\x7b`" behind)
    | opener :: body =>
      let declared ← match slice? behind 2 brace with
        | some declared => .ok declared
        | none => .error (missing "`:` before the function body" behind)
      let returnType ← readReturnType name.text declared
      match Pattern.matchBlock .openBrace .closeBrace (opener :: body) with
      | none => .error (faultAt opener (.unclosedBody name.text))
      | some n =>
        .ok { signature := ⟨name.text, params, returnType, name.position⟩
              opener
              body := body.take (n - 2) }

end Grammar

end CheckedScript
