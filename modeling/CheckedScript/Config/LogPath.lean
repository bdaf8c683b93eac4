import CheckedScript.Config
import CheckedScript.Text.Alphanumeric
import CheckedScript.Text.Blank

/-!
The path of the build log. Environment variables and a leading `~` in the configured text are
expanded; what a variable holds is not expanded again. The home directory is that of `HOME`, or
else of the user's account, which is no part of the environment.
-/

namespace CheckedScript

/-- The variables of the environment. -/
abbrev Environment := List (String × String)

def Environment.get? (environment : Environment) (name : String) : Option String :=
  (environment.find? fun entry => entry.1 = name).map (·.2)

namespace Config

/-- Splits the text between the braces of a variable at its first `:-` into the name and the
default. There is no default if the name would be empty. -/
def splitDefault (inside : List Char) : List Char × Option (List Char) :=
  match inside with
  | ':' :: '-' :: _ => (inside, none)
  | _ => go inside
where
  go : List Char → List Char × Option (List Char)
    | ':' :: '-' :: rest => ([], some rest)
    | c :: cs => let (name, value) := go cs; (c :: name, value)
    | [] => ([], none)

/-- Whether `c` can stand in the name of a variable without braces. -/
def isVariableChar (c : Char) : Bool := c = '_' || Text.isAlphanumeric c

/-- A part of a path: text as it stands, or the place of a variable. -/
inductive Piece
  | plain (c : Char)
  | named (name : String) (default : Option String)
deriving DecidableEq, Repr

/-- Takes a path apart at `$NAME`, at `$` with a name in braces, and at `$$`, which is a dollar
sign. A dollar sign before anything else, or before an open brace, stands for itself. -/
def pieces : List Char → List Piece
  | [] => []
  | c :: cs =>
    if c ≠ '$' then .plain c :: pieces cs
    else match cs with
      | '\x7b' :: rest =>
        let inside := rest.takeWhile (· ≠ '\x7d')
        if inside.length = rest.length then .plain '$' :: .plain '\x7b' :: pieces rest
        else
          let (name, default) := splitDefault inside
          .named (String.ofList name) (default.map String.ofList)
            :: pieces (rest.drop (inside.length + 1))
      | '$' :: rest => .plain '$' :: pieces rest
      | cs =>
        let name := cs.takeWhile isVariableChar
        if name.isEmpty then .plain '$' :: pieces cs
        else .named (String.ofList name) none :: pieces (cs.drop name.length)
termination_by cs => cs.length
decreasing_by all_goals (simp only [List.length_drop, List.length_cons]; omega)

/-- What a piece stands for; fails with the name of a variable that is not set and has no
default. -/
def Piece.expand (environment : Environment) : Piece → Except String String
  | plain c => .ok (String.singleton c)
  | named name default =>
    match environment.get? name, default with
    | some value, _ => .ok value
    | none, some value => .ok value
    | none, none => .error name

/-- Replaces the variables of a path by what they hold. -/
def expandVariables (environment : Environment) (raw : String) : Except String String :=
  ((pieces raw.toList).mapM (Piece.expand environment)).map String.join

/-- The variables that a path mentions. -/
def variablesIn (raw : String) : List String :=
  (pieces raw.toList).filterMap fun
    | .named name _ => some name
    | .plain _ => none

/-- The home directory: `HOME` unless it is unset or empty, then that of the account. -/
def homeDirectory? (environment : Environment) (account : Option String) : Option String :=
  ((environment.get? "HOME").filter (· ≠ "")).or account

/-- Replaces a leading `~` that stands alone or before a slash by the home directory. -/
def expandHome (environment : Environment) (path : String) (account : Option String := none) :
    String :=
  match path.toList, homeDirectory? environment account with
  | ['~'], some home => home
  | '~' :: '/' :: rest, some home => home ++ String.ofList ('/' :: rest)
  | _, _ => path

/-- The path with its variables and its leading `~` expanded. A `~` that a variable puts in front
stays. -/
def expandPath (environment : Environment) (raw : String) (account : Option String := none) :
    Except String String := do
  let path ← expandVariables environment raw
  if raw.toList.head? ≠ some '~' && path.toList.head? = some '~' then return path
  else return expandHome environment path account

/-- The path of the build log, if there is one, as `expand` makes it of the configured text. Fails
with the name of an unset variable. -/
def logPath (config : Config) (environment : Environment)
    (expand : Environment → String → Except String String := (expandPath · ·)) :
    Except String (Option String) :=
  if config.settings.logFile.toList.all Text.isBlank then .ok none
  else (expand environment config.settings.logFile).map some

end Config

end CheckedScript
