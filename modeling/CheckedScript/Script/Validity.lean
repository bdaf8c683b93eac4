/-!
Validity of shell scripts of the shape that this library writes: commands with quoted arguments,
`if … then … fi`, and functions in braces. A script is valid if its quotes, the expansions inside
them and its blocks are closed, and no command or function is named by a word that the shell
reads otherwise.

This is no grammar of the shell. Single quotes, here-documents, redirections, lists and pipes,
loops, arithmetic and what stands inside an expansion are not looked at, so `isValid` is a judgement
on scripts of that shape only. What is proved of scripts takes the judgement as a parameter, or
assumes that none is asked for.
-/

namespace CheckedScript.Script

/-- A script taken apart: the unquoted text of its lines, the quoted texts, and whether the last
quote is closed. Comment lines are empty. -/
structure Parts where
  lines : List (List Char)
  quotes : List (List Char)
  closed : Bool
deriving DecidableEq, Repr

namespace Parts

/-- Puts a character in front of the unquoted text. -/
def consPlain (c : Char) (parts : Parts) : Parts :=
  match parts.lines with
  | line :: lines => { parts with lines := (c :: line) :: lines }
  | [] => { parts with lines := [[c]] }

/-- Puts a character in front of the quoted text. -/
def consQuoted (c : Char) (parts : Parts) : Parts :=
  match parts.quotes with
  | quote :: quotes => { parts with quotes := (c :: quote) :: quotes }
  | [] => { parts with quotes := [[c]] }

end Parts

inductive Mode
  | lineStart
  | inLine
  | comment
  | quoted
deriving DecidableEq, Repr

/-- Takes a script apart. A backslash takes the character behind it along, in quotes and out. -/
def scan : Mode → List Char → Parts
  | .quoted, [] => ⟨[[]], [[]], false⟩
  | .quoted, '"' :: cs =>
    let parts := scan .inLine cs
    { parts with quotes := [] :: parts.quotes }
  | .quoted, '\\' :: c :: cs => ((scan .quoted cs).consQuoted c).consQuoted '\\'
  | .quoted, c :: cs => (scan .quoted cs).consQuoted c
  | _, [] => ⟨[[]], [], true⟩
  | _, '\n' :: cs =>
    let parts := scan .lineStart cs
    { parts with lines := [] :: parts.lines }
  | .comment, _ :: cs => scan .comment cs
  | .lineStart, '#' :: cs => scan .comment cs
  | _, '"' :: cs => scan .quoted cs
  | _, '\\' :: c :: cs => ((scan .inLine cs).consPlain c).consPlain '\\'
  | _, c :: cs => (scan .inLine cs).consPlain c

/-- What can be left open inside quotes. -/
inductive Expansion
  | brace
  | paren
  | backtick
deriving DecidableEq, Repr

/-- Whether a quoted text closes the given expansions and all that it opens. -/
def closesExpansions : List Expansion → List Char → Bool
  | opened, [] => opened.isEmpty
  | opened, '\\' :: _ :: cs => closesExpansions opened cs
  | opened, '$' :: '\x7b' :: cs => closesExpansions (.brace :: opened) cs
  | opened, '$' :: '(' :: cs => closesExpansions (.paren :: opened) cs
  | .backtick :: opened, '`' :: cs => closesExpansions opened cs
  | opened, '`' :: cs => closesExpansions (.backtick :: opened) cs
  | .brace :: opened, '\x7d' :: cs => closesExpansions opened cs
  | .paren :: opened, ')' :: cs => closesExpansions opened cs
  | .paren :: opened, '(' :: cs => closesExpansions (.paren :: .paren :: opened) cs
  | opened, _ :: cs => closesExpansions opened cs

/-- Words that begin a compound command. -/
def compoundWords : List String := ["if", "for", "while", "until", "case", "function", "select"]

/-- Words that begin a declaration. -/
def declarationWords : List String :=
  ["declare", "typeset", "export", "readonly", "local", "unset", "unsetenv"]

/-- A block that is still open. -/
inductive Block
  | conditional
  | function
deriving DecidableEq, Repr

/-- The name in front of `() {`, if a line ends so. -/
def functionName? (line : List Char) : Option String :=
  if "() \x7b".toList.isSuffixOf line then some (String.ofList (line.take (line.length - 4)))
  else none

/-- Whether the unquoted lines close the given blocks and all that they open, and start with no
misplaced word. -/
def closesBlocks : List Block → List (List Char) → Bool
  | opened, [] => opened.isEmpty
  | opened, line :: lines =>
    let line := line.dropWhile fun c => c = ' ' || c = '\t'
    match functionName? line with
    | some name =>
      !(compoundWords ++ declarationWords).contains name && closesBlocks (.function :: opened) lines
    | none =>
      let word := String.ofList (line.takeWhile (· ≠ ' '))
      if word = "if" then
        "then".toList.isSuffixOf line && closesBlocks (.conditional :: opened) lines
      else if compoundWords.contains word then false
      else match opened, word with
        | .conditional :: opened, "fi" => closesBlocks opened lines
        | .function :: opened, "\x7d" => closesBlocks opened lines
        | opened, _ => closesBlocks opened lines

/-- Whether the shell can read `script`. -/
def isValid (script : String) : Bool :=
  let parts := scan .lineStart script.toList
  parts.closed && parts.quotes.all (closesExpansions []) && closesBlocks [] parts.lines

end CheckedScript.Script
