/-!
Faults in the text of a regular expression, and the report that shows where they stand.
-/

namespace CheckedScript.Regex

/-- What makes the text of an expression unreadable. -/
inductive Cause
  | classUnclosed
  | classRangeInvalid
  | groupUnclosed
  | groupUnopened
  | groupNameInvalid
  | groupNameEmpty
  | groupNameUnclosed
  | flagUnrecognized
  | escapeIncomplete
  | escapeUnrecognized
  | repetitionMissing
  | countUnclosed
  | countEmpty
  | countInvalid
deriving DecidableEq, Repr

def Cause.message : Cause → String
  | classUnclosed => "unclosed character class"
  | classRangeInvalid => "invalid character class range, the start must be <= the end"
  | groupUnclosed => "unclosed group"
  | groupUnopened => "unopened group"
  | groupNameInvalid => "invalid capture group character"
  | groupNameEmpty => "empty capture group name"
  | groupNameUnclosed => "unclosed capture group name"
  | flagUnrecognized => "unrecognized flag"
  | escapeIncomplete => "incomplete escape sequence, reached end of pattern prematurely"
  | escapeUnrecognized => "unrecognized escape sequence"
  | repetitionMissing => "repetition operator missing expression"
  | countUnclosed => "unclosed counted repetition"
  | countEmpty => "repetition quantifier expects a valid decimal"
  | countInvalid => "invalid repetition count range, the start must be <= the end"

/-- A cause and the stretch of the text that shows it, as character offsets. -/
structure Flaw where
  start : Nat
  stop : Nat
  cause : Cause
deriving DecidableEq, Repr

/-- An unreadable text with its flaw. -/
structure Fault where
  text : String
  flaw : Flaw
deriving DecidableEq, Repr

namespace Fault

/-- The lines of a text, without their line feeds. -/
def linesOf (cs : List Char) : List (List Char) :=
  match cs with
  | [] => [[]]
  | c :: cs =>
    if c = '\n' then [] :: linesOf cs
    else match linesOf cs with
      | line :: rest => (c :: line) :: rest
      | [] => [[c]]

/-- Line and column, from 0, of the character at `offset`. -/
def place (cs : List Char) (offset : Nat) : Nat × Nat :=
  let before := linesOf (cs.take offset)
  (before.length - 1, (before.getLast?.getD []).length)

def spaces (n : Nat) : String := String.ofList (List.replicate n ' ')

/-- The text line by line, each behind its number if there are several, with carets below the
flaw if it lies on one line. -/
def notated (fault : Fault) : String :=
  let cs := fault.text.toList
  let lines := linesOf cs
  let width := if lines.length ≤ 1 then 0 else (toString lines.length).length
  let (line, column) := place cs fault.flaw.start
  let (lastLine, lastColumn) := place cs fault.flaw.stop
  let padding := if width = 0 then 4 else width + 2
  let shown := lines.zipIdx.map fun (text, i) =>
    let number := toString (i + 1)
    let head := if width = 0 then "    " else spaces (width - number.length) ++ number ++ ": "
    let carets := String.ofList (List.replicate (max 1 (lastColumn - column)) '^')
    let note :=
      if i = line && line = lastLine then spaces (padding + column) ++ carets ++ "\n" else ""
    head ++ String.ofList text ++ "\n" ++ note
  String.join shown

/-- The report of a fault. -/
def message (fault : Fault) : String :=
  let cs := fault.text.toList
  let rule := if cs.contains '\n' then String.ofList (List.replicate 79 '~') ++ "\n" else ""
  let (line, column) := place cs fault.flaw.start
  let (lastLine, lastColumn) := place cs fault.flaw.stop
  let extent :=
    if line = lastLine then ""
    else "on line " ++ toString (line + 1) ++ " (column " ++ toString (column + 1)
      ++ ") through line " ++ toString (lastLine + 1) ++ " (column " ++ toString lastColumn ++ ")\n"
  "regex parse error:\n" ++ rule ++ fault.notated ++ rule ++ extent
    ++ "error: " ++ fault.flaw.cause.message

end Fault

end CheckedScript.Regex
