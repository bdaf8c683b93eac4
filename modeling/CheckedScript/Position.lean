/-!
Source positions: an optional file label with a line and a column, both counted from 1.
-/

namespace CheckedScript

/-- Where a piece of source text starts. Columns count characters. -/
structure Position where
  file : Option String := none
  line : Nat := 1
  column : Nat := 1
deriving DecidableEq, Repr, Inhabited

namespace Position

/-- The first position of a source labelled `file`. -/
def start (file : Option String) : Position := { file }

/-- The position right after the character `c` at `p`. -/
def advance (p : Position) (c : Char) : Position :=
  if c = '\n' then { p with line := p.line + 1, column := 1 }
  else { p with column := p.column + 1 }

/-- The position after the text `cs`, which starts at `p`. -/
def after (p : Position) (cs : List Char) : Position := cs.foldl advance p

@[simp] theorem after_nil (p : Position) : p.after [] = p := rfl

@[simp] theorem after_cons (p : Position) (c : Char) (cs : List Char) :
    p.after (c :: cs) = (p.advance c).after cs := rfl

@[simp] theorem after_append (p : Position) (cs ds : List Char) :
    p.after (cs ++ ds) = (p.after cs).after ds := by
  simp [after]

@[simp] theorem advance_file (p : Position) (c : Char) : (p.advance c).file = p.file := by
  unfold advance; split <;> rfl

@[simp] theorem after_file (p : Position) (cs : List Char) : (p.after cs).file = p.file := by
  induction cs generalizing p with
  | nil => rfl
  | cons c cs ih => simp [ih]

/-- `file:line:column`, or `line:column` for unlabelled text. -/
def text (p : Position) : String :=
  match p.file with
  | some file => file ++ ":" ++ toString p.line ++ ":" ++ toString p.column
  | none => toString p.line ++ ":" ++ toString p.column

end Position

end CheckedScript
