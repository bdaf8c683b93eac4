import CheckedScript.Error
import CheckedScript.Token

/-!
Layout passes: quoted text, comments and array types each become one token, line ends become
semicolons where a statement ends, and the remaining blanks are dropped. Only the first pass can
fail, at a quote that is never closed.
-/

namespace CheckedScript.Token

/-- One token made of `parts`, at the first of them, or at `mark` if there are none. -/
def merge (kind : Kind) (parts : List Token) (mark : Token) : Token :=
  ⟨kind, String.join (parts.map (·.text)), (parts.head?.getD mark).position⟩

/-- Reads on inside the quotes that `mark` opened; `parts` has the tokens since, last first. -/
def joinStringsFrom (mark : Option Token) (parts : List Token) :
    List Token → Except CompileError (List Token)
  | [] => match mark with
    | none => .ok []
    | some mark => .error (.malformed .unterminatedString (some mark.position))
  | t :: ts => match mark with
    | none =>
      if t.kind = .stringLiteralMarker then joinStringsFrom (some t) [] ts
      else (joinStringsFrom none [] ts).map (t :: ·)
    | some mark =>
      if t.kind = .stringLiteralMarker then
        (joinStringsFrom none [] ts).map (merge .stringLiteral parts.reverse mark :: ·)
      else joinStringsFrom (some mark) (t :: parts) ts

/-- Each pair of quotes, with what stands between them, becomes one string literal. -/
def joinStrings (ts : List Token) : Except CompileError (List Token) := joinStringsFrom none [] ts

/-- Reads on inside the comment that `mark` opened; `parts` has the tokens since, last first. -/
def joinCommentsFrom (mark : Option Token) (parts : List Token) : List Token → List Token
  | [] => match mark with
    | none => []
    | some mark => [merge .comment parts.reverse mark]
  | t :: ts => match mark with
    | none =>
      if t.kind = .startComment then joinCommentsFrom (some t) [] ts
      else t :: joinCommentsFrom none [] ts
    | some mark =>
      if t.kind = .newLine then
        merge .comment parts.reverse mark :: t :: joinCommentsFrom none [] ts
      else joinCommentsFrom (some mark) (t :: parts) ts

/-- Each comment mark, with the rest of its line, becomes one comment; the line end stays. -/
def joinComments (ts : List Token) : List Token := joinCommentsFrom none [] ts

/-- Each `[`, `]`, `string` in a row becomes one array type. -/
def joinArrayTypes : List Token → List Token
  | a :: b :: c :: ts =>
    if a.kind = .openSquare ∧ b.kind = .closeSquare ∧ c.kind = .stringType then
      merge .stringArrayType [a, b, c] a :: joinArrayTypes ts
    else a :: joinArrayTypes (b :: c :: ts)
  | t :: ts => t :: joinArrayTypes ts
  | [] => []

/-- Whether a statement goes on over a line end behind a token of this kind. -/
def Kind.continues : Kind → Bool
  | openBrace | stringLiteralMarker | openParen | openSquare | comma | semicolon => true
  | _ => false

/-- Whether a token of this kind only lays out the text. -/
def Kind.isBlank : Kind → Bool
  | whitespace | newLine => true
  | _ => false

/-- Reads on behind `previous`, the kind of the last token that is no blank. -/
def endStatementsAfter (previous : Option Kind) : List Token → List Token
  | [] => []
  | t :: ts =>
    match t.kind with
    | .whitespace => t :: endStatementsAfter previous ts
    | .newLine =>
      if previous.all Kind.continues then t :: endStatementsAfter previous ts
      else { t with kind := .semicolon, text := ";" } :: endStatementsAfter (some .semicolon) ts
    | kind => t :: endStatementsAfter (some kind) ts

/-- A line end becomes a semicolon unless the statement before it goes on or there is none. -/
def endStatements (ts : List Token) : List Token := endStatementsAfter none ts

def dropBlanks (ts : List Token) : List Token := ts.filter fun t => !t.kind.isBlank

inductive Pass
  | strings
  | comments
  | arrayTypes
  | terminators
  | blanks
deriving DecidableEq, Repr

namespace Pass

def name : Pass → String
  | strings => "coalesce strings"
  | comments => "coalesce comments"
  | arrayTypes => "coalesce array types"
  | terminators => "insert terminators"
  | blanks => "filter"

/-- The passes in their order. Strings come before comments: a quote in a comment opens a
string. -/
def all : List Pass := [strings, comments, arrayTypes, terminators, blanks]

def ofName? (name : String) : Option Pass := all.find? fun pass => pass.name = name

def run : Pass → List Token → Except CompileError (List Token)
  | strings, ts => joinStrings ts
  | comments, ts => .ok (joinComments ts)
  | arrayTypes, ts => .ok (joinArrayTypes ts)
  | terminators, ts => .ok (endStatements ts)
  | blanks, ts => .ok (dropBlanks ts)

end Pass

end CheckedScript.Token
