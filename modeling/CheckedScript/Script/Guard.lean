import CheckedScript.Error

/-!
Guards: shell code that ends the script if a command cannot be found, each with an exit status
of its own. Statuses count up from the first and end at 255.
-/

namespace CheckedScript.Script

/-- Hands out exit statuses. -/
structure Statuses where
  next : Nat
deriving DecidableEq, Repr

namespace Statuses

def startingAt (first : UInt8) : Statuses := ⟨first.toNat⟩

/-- The next status, for the guard of `command`, while there is one. -/
def allocate (statuses : Statuses) (command : String) : Except CompileError Nat × Statuses :=
  if statuses.next ≤ 255 then (.ok statuses.next, ⟨statuses.next + 1⟩)
  else (.error (.generation (.noStatusLeft command) none), statuses)

end Statuses

/-- The block that exits with `status`, after echoing `message`, if `command` is not found. -/
def check (command : String) (status : Nat) (message : Option String) (indent : String) : String :=
  let echo := match message with
    | some message => indent ++ "echo \"" ++ message ++ "\"\n"
    | none => ""
  "if [[ -z \"$( which " ++ command ++ " )\" ]]; then\n" ++ echo
    ++ indent ++ "exit " ++ toString status ++ "\nfi"

/-- The checks of the commands that every script relies on. -/
def checks (indent : String) (statuses : Statuses) :
    List String → Except CompileError (List String) × Statuses
  | [] => (.ok [], statuses)
  | command :: commands =>
    match statuses.allocate command with
    | (.error e, statuses) => (.error e, statuses)
    | (.ok status, statuses) =>
      let (rest, statuses) := checks indent statuses commands
      (rest.map (check command status none indent :: ·), statuses)

/-- The line above the checks of the given commands. -/
def preambleHeader (commands : List String) : String :=
  let named := match commands.dropLast, commands.getLast? with
    | [], last => last.getD ""
    | init, last => String.intercalate ", " init ++ " and " ++ last.getD ""
  "# check for " ++ named ++ " by default"

/-- The checks of the implicit commands below a line that names them. -/
def preamble (implicit : List String) (indent : String) (statuses : Statuses) :
    Except CompileError String × Statuses :=
  let (blocks, statuses) := checks indent statuses implicit
  let text := blocks.map fun blocks =>
    if implicit.isEmpty then ""
    else preambleHeader implicit ++ "\n" ++ String.intercalate "\n\n" blocks
  (text, statuses)

/-- The check of one imported command. -/
def importGuard (command : String) (indent : String) (statuses : Statuses) :
    Except CompileError String × Statuses :=
  match statuses.allocate command with
  | (.error e, statuses) => (.error e, statuses)
  | (.ok status, statuses) =>
    let message := "imported command " ++ command ++ " could not be found"
    (.ok (check command status (some message) indent), statuses)

/-- The checks of imported commands, in order. -/
def importGuards (indent : String) (statuses : Statuses) :
    List String → Except CompileError (List String)
  | [] => .ok []
  | command :: commands =>
    match importGuard command indent statuses with
    | (.error e, _) => .error e
    | (.ok text, statuses) => (importGuards indent statuses commands).map (text :: ·)

end CheckedScript.Script
