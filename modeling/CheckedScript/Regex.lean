/-!
Regular expressions over characters, with marks for the start and the end of the text.
A text is searched by reading it character by character: `step c r` matches what may follow `c`
in a text of `r`, so a search holds one expression at a time.
-/

namespace CheckedScript

/-- A set of characters: those in one of the ranges, or those in none of them. -/
structure CharClass where
  negated : Bool
  ranges : List (Char × Char)
deriving DecidableEq, Repr

namespace CharClass

def contains (k : CharClass) (c : Char) : Bool :=
  k.negated != k.ranges.any fun r => r.1 ≤ c && c ≤ r.2

def single (c : Char) : CharClass := ⟨false, [(c, c)]⟩

/-- Every character. -/
def all : CharClass := ⟨true, []⟩

/-- Every character but the line feed. -/
def inLine : CharClass := ⟨true, [('\n', '\n')]⟩

end CharClass

inductive Regex
  /-- Matches nothing. -/
  | never
  /-- Matches the empty text. -/
  | empty
  /-- Matches one character of the class. -/
  | one (k : CharClass)
  /-- Matches the empty text at the start. -/
  | start
  /-- Matches the empty text at the end. -/
  | stop
  | seq (r s : Regex)
  | alt (r s : Regex)
  | star (r : Regex)
deriving DecidableEq, Repr

namespace Regex

/-- `seq`, with the trivial cases dropped. -/
def cat : Regex → Regex → Regex
  | never, _ => never
  | _, never => never
  | empty, s => s
  | r, empty => r
  | r, s => seq r s

/-- The expressions that `r` chooses between. -/
def alternatives : Regex → List Regex
  | never => []
  | alt r s => alternatives r ++ alternatives s
  | r => [r]

/-- The choice between the given expressions. -/
def anyOf : List Regex → Regex
  | [] => never
  | [r] => r
  | r :: rs => alt r (anyOf rs)

/-- `alt`, with each alternative kept once: this bounds the size of what `step` leaves. -/
def either (r s : Regex) : Regex := anyOf (alternatives r ++ alternatives s).eraseDups

def optional (r : Regex) : Regex := alt empty r

def plus (r : Regex) : Regex := seq r (star r)

/-- `r`, `n` times over. -/
def times : Nat → Regex → Regex
  | 0, _ => empty
  | n + 1, r => cat r (times n r)

/-- At most `n` times `r`. -/
def atMost : Nat → Regex → Regex
  | 0, _ => empty
  | n + 1, r => optional (cat r (atMost n r))

def sequence (rs : List Regex) : Regex := rs.foldr cat empty

/-- Whether `r` matches the empty text at a place that is the start or the end as given. -/
def matchesEmpty (atStart atEnd : Bool) : Regex → Bool
  | never => false
  | empty => true
  | one _ => false
  | start => atStart
  | stop => atEnd
  | seq r s => matchesEmpty atStart atEnd r && matchesEmpty atStart atEnd s
  | alt r s => matchesEmpty atStart atEnd r || matchesEmpty atStart atEnd s
  | star _ => true

/-- What is left to match after `r` has taken the character `c`. -/
def step (atStart : Bool) (c : Char) : Regex → Regex
  | never => never
  | empty => never
  | one k => if k.contains c then empty else never
  | start => never
  | stop => never
  | seq r s =>
    if matchesEmpty atStart false r then either (cat (step atStart c r) s) (step atStart c s)
    else cat (step atStart c r) s
  | alt r s => either (step atStart c r) (step atStart c s)
  | star r => cat (step atStart c r) (star r)

/-- Whether `r` matches the whole of a text that begins at the start if `atStart` says so. -/
def matchesAll (atStart : Bool) (r : Regex) : List Char → Bool
  | [] => matchesEmpty atStart true r
  | c :: cs => matchesAll false (step atStart c r) cs

/-- Whether some stretch of the text matches `r`. -/
def occursIn (r : Regex) (cs : List Char) : Bool :=
  matchesAll true (cat (star (one .all)) (cat r (star (one .all)))) cs

end Regex

end CheckedScript
