import CheckedScript.Position

/-!
Fragments: source text cut into single separator characters and maximal runs of other
characters, each with the position of its first character. Nothing is dropped: the texts
concatenate to the source.
-/

namespace CheckedScript

/-- Characters that stand for themselves and end the run before them. -/
def separators : List Char :=
  [' ', '\t', '\r', '\n',
   '(', ')', '\x7b', '\x7d', '[', ']',
   ':', ';', '.', ',', '$', '"', '#',
   '+', '-', '*', '/', '%', '&', '|', '=', '<', '>', '!']

def isSeparator (c : Char) : Bool := separators.contains c

/-- A separator, or a run of characters that are none, at its place in the source. -/
structure Fragment where
  text : String
  position : Position
deriving DecidableEq, Repr

namespace Fragment

/-- Puts `c` in front of the pieces of the text behind it: a run takes up the run it touches. -/
def attach (c : Char) : List (List Char) → List (List Char)
  | (d :: ds) :: pieces =>
    if isSeparator c || isSeparator d then [c] :: (d :: ds) :: pieces
    else (c :: d :: ds) :: pieces
  | pieces => [c] :: pieces

/-- The pieces of a text: its separators, and the maximal runs between them. -/
def split : List Char → List (List Char)
  | [] => []
  | c :: cs => attach c (split cs)

/-- Gives each piece the position that the pieces before it lead to. -/
def place (p : Position) : List (List Char) → List Fragment
  | [] => []
  | cs :: pieces => { text := String.ofList cs, position := p } :: place (p.after cs) pieces

/-- The fragments of `source`, positioned in the file labelled `file`. -/
def ofSource (file : Option String) (source : String) : List Fragment :=
  place (Position.start file) (split source.toList)

theorem attach_flatten (c : Char) (pieces : List (List Char)) :
    (attach c pieces).flatten = c :: pieces.flatten := by
  unfold attach; split
  · split <;> simp
  · simp

theorem split_flatten (cs : List Char) : (split cs).flatten = cs := by
  induction cs with
  | nil => rfl
  | cons c cs ih => simp [split, attach_flatten, ih]

end Fragment

end CheckedScript
