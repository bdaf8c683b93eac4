import CheckedScript.Regex
import CheckedScript.Regex.Fault

/-!
Reading the text of a regular expression: characters, `.`, classes, groups, alternatives,
repetitions and the marks `^` and `$`. Each reader says how many characters it took. Flags, escapes
for classes and look-around are not read.
-/

namespace CheckedScript.Regex

/-- Characters that have a meaning of their own and are written with a backslash otherwise. -/
def isMeta (c : Char) : Bool := "\\.+*?()|[]\x7b\x7d^$#&-~".toList.contains c

/-- The character that a backslash before `c` stands for. -/
def escaped? (c : Char) : Option Char :=
  if isMeta c then some c
  else match c with
    | 't' => some '\t'
    | 'n' => some '\n'
    | 'r' => some '\r'
    | 'f' => some '\x0c'
    | 'v' => some '\x0b'
    | 'a' => some '\x07'
    | _ => none

/-- Reads the character behind the backslash at `i`. -/
def readEscape (i : Nat) : List Char → Except Flaw Char
  | [] => .error ⟨i, i + 1, .escapeIncomplete⟩
  | c :: _ => match escaped? c with
    | some d => .ok d
    | none => .error ⟨i, i + 2, .escapeUnrecognized⟩

/-- Reads one character of a class at `i`, and says how many characters write it. -/
def readClassChar (i : Nat) (c : Char) (cs : List Char) : Except Flaw (Char × Nat) :=
  if c = '\\' then (readEscape i cs).map fun d => (d, 2) else .ok (c, 1)

/-- Reads the items of a class up to its bracket. `unclosed` is the flaw to report at the end of
the text; the count is of the characters from `i` on, the bracket included. -/
def readClassItems (unclosed : Flaw) (i : Nat) (taken : Nat) (ranges : List (Char × Char)) :
    List Char → Except Flaw (List (Char × Char) × Nat)
  | [] => .error unclosed
  | c :: cs =>
    if c = ']' then .ok (ranges.reverse, taken + 1)
    else if c = '[' then .error ⟨i, i + 1, .classUnclosed⟩
    else match readClassChar i c cs with
      | .error flaw => .error flaw
      | .ok (low, n) =>
        match cs.drop (n - 1) with
        | '-' :: d :: ds =>
          if d = ']' || d = '-' then
            readClassItems unclosed (i + n) (taken + n) ((low, low) :: ranges) (cs.drop (n - 1))
          else match readClassChar (i + n + 1) d ds with
            | .error flaw => .error flaw
            | .ok (high, m) =>
              if low ≤ high then
                readClassItems unclosed (i + n + 1 + m) (taken + n + 1 + m) ((low, high) :: ranges)
                  (cs.drop (n + m))
              else .error ⟨i, i + n + 1 + m, .classRangeInvalid⟩
        | _ => readClassItems unclosed (i + n) (taken + n) ((low, low) :: ranges) (cs.drop (n - 1))
termination_by cs => cs.length
decreasing_by all_goals (simp only [List.length_drop, List.length_cons]; omega)

/-- Reads the class whose bracket stands at `i`. A first `^` negates; dashes and one `]` right
after that stand for themselves. The count is of the characters behind the bracket. -/
def readClass (i : Nat) (cs : List Char) : Except Flaw (CharClass × Nat) :=
  let negated := cs.head? = some '^'
  let skipped := if negated then 1 else 0
  let dashes := (cs.drop skipped).takeWhile (· = '-')
  let behind := (cs.drop skipped).dropWhile (· = '-')
  let bracket := dashes.isEmpty && behind.head? = some ']'
  let opening := skipped + dashes.length + if bracket then 1 else 0
  let ranges := dashes.map (fun c => (c, c)) ++ if bracket then [(']', ']')] else []
  let unclosed := ⟨i, i + 1 + opening, .classUnclosed⟩
  (readClassItems unclosed (i + 1 + opening) opening ranges.reverse (cs.drop opening)).map
    fun (ranges, n) => (⟨negated, ranges⟩, n)

/-- Reads the name of a group up to its `>`, from `i` on. -/
def readGroupName (i : Nat) (first : Bool) : List Char → Except Flaw Nat
  | [] => .error ⟨i, i, .groupNameUnclosed⟩
  | c :: cs =>
    if c = '>' then
      if first then .error ⟨i, i, .groupNameEmpty⟩ else .ok 1
    else if c = '_' || c.isAlpha || (!first && (c.isDigit || c = '.' || c = '[' || c = ']')) then
      (readGroupName (i + 1) false cs).map (· + 1)
    else .error ⟨i, i + 1, .groupNameInvalid⟩

/-- Reads what follows the parenthesis at `i` up to the contents of its group. -/
def readGroupHead (i : Nat) : List Char → Except Flaw Nat
  | '?' :: 'P' :: '<' :: cs => (readGroupName (i + 4) true cs).map (· + 3)
  | '?' :: '<' :: cs => (readGroupName (i + 3) true cs).map (· + 2)
  | '?' :: ':' :: _ => .ok 2
  | '?' :: ')' :: _ => .error ⟨i + 1, i + 1, .repetitionMissing⟩
  | '?' :: _ :: _ => .error ⟨i + 2, i + 3, .flagUnrecognized⟩
  | ['?'] => .error ⟨i, i + 1, .groupUnclosed⟩
  | _ => .ok 0

/-- The number written by decimal digits. -/
def number (digits : List Char) : Nat :=
  digits.foldl (fun n c => 10 * n + (c.toNat - '0'.toNat)) 0

/-- Reads the bounds of a counted repetition behind its brace at `i`: the least count, and the
greatest if there is one. -/
def readCount (i : Nat) (cs : List Char) : Except Flaw ((Nat × Option Nat) × Nat) :=
  let low := cs.takeWhile Char.isDigit
  let k := low.length
  let close (most : Option Nat) (n : Nat) : Except Flaw ((Nat × Option Nat) × Nat) :=
    if (cs.drop n).head? = some '\x7d' then
      let n := if (cs.drop (n + 1)).head? = some '?' then n + 2 else n + 1
      if most.all (number low ≤ ·) then .ok ((number low, most), n)
      else .error ⟨i, i + 1 + n, .countInvalid⟩
    else .error ⟨i, i + 1 + n, .countUnclosed⟩
  match cs.drop k with
  | [] => .error ⟨i, i + 1 + k, .countUnclosed⟩
  | [','] => .error ⟨i, i + 2 + k, .countUnclosed⟩
  | ',' :: c :: rest =>
    if low.isEmpty then .error ⟨i + 1, i + 1, .countEmpty⟩
    else if c = '\x7d' then close none (k + 1)
    else
      let high := (c :: rest).takeWhile Char.isDigit
      if high.isEmpty then .error ⟨i + 2 + k, i + 2 + k, .countEmpty⟩
      else close (some (number high)) (k + 1 + high.length)
  | _ =>
    if low.isEmpty then .error ⟨i + 1, i + 1, .countEmpty⟩
    else close (some (number low)) k

/-- The expressions read so far at one level of groups, last first: whole alternatives, and the
items of the alternative at hand. -/
structure Level where
  alternatives : List Regex := []
  items : List Regex := []

namespace Level

def push (level : Level) (r : Regex) : Level := { level with items := r :: level.items }

/-- Ends the alternative at hand. -/
def bar (level : Level) : Level :=
  { alternatives := sequence level.items.reverse :: level.alternatives }

def regex (level : Level) : Regex := anyOf level.bar.alternatives.reverse

end Level

/-- A group that is still open: where its parenthesis stands, and the level around it. -/
structure Open where
  position : Nat
  around : Level

def repeated (c : Char) (r : Regex) : Regex :=
  if c = '*' then star r else if c = '+' then plus r else optional r

def counted (bounds : Nat × Option Nat) (r : Regex) : Regex :=
  match bounds.2 with
  | some most => cat (times bounds.1 r) (atMost (most - bounds.1) r)
  | none => cat (times bounds.1 r) (star r)

/-- Reads on from offset `i` inside the open groups. -/
def readFrom (i : Nat) (groups : List Open) (level : Level) : List Char → Except Flaw Regex
  | [] => match groups with
    | [] => .ok level.regex
    | group :: _ => .error ⟨group.position, group.position + 1, .groupUnclosed⟩
  | c :: cs =>
    if c = '(' then
      match readGroupHead i cs with
      | .error flaw => .error flaw
      | .ok n => readFrom (i + 1 + n) (⟨i, level⟩ :: groups) {} (cs.drop n)
    else if c = ')' then
      match groups with
      | [] => .error ⟨i, i + 1, .groupUnopened⟩
      | group :: groups => readFrom (i + 1) groups (group.around.push level.regex) cs
    else if c = '|' then readFrom (i + 1) groups level.bar cs
    else if c = '[' then
      match readClass i cs with
      | .error flaw => .error flaw
      | .ok (k, n) => readFrom (i + 1 + n) groups (level.push (one k)) (cs.drop n)
    else if c = '*' || c = '+' || c = '?' then
      match level.items with
      | [] => .error ⟨i, i, .repetitionMissing⟩
      | r :: items =>
        let n := if cs.head? = some '?' then 1 else 0
        readFrom (i + 1 + n) groups { level with items := repeated c r :: items } (cs.drop n)
    else if c = '\x7b' then
      match level.items with
      | [] => .error ⟨i, i, .repetitionMissing⟩
      | r :: items => match readCount i cs with
        | .error flaw => .error flaw
        | .ok (bounds, n) =>
          readFrom (i + 1 + n) groups { level with items := counted bounds r :: items } (cs.drop n)
    else if c = '\\' then
      match readEscape i cs with
      | .error flaw => .error flaw
      | .ok d => readFrom (i + 2) groups (level.push (one (.single d))) (cs.drop 1)
    else
      let r := if c = '.' then one .inLine else if c = '^' then start else if c = '$' then stop
        else one (.single c)
      readFrom (i + 1) groups (level.push r) cs
termination_by cs => cs.length
decreasing_by all_goals (simp only [List.length_drop, List.length_cons]; omega)

/-- The expression that `text` writes. -/
def ofText (text : String) : Except Fault Regex :=
  match readFrom 0 [] {} text.toList with
  | .ok r => .ok r
  | .error flaw => .error ⟨text, flaw⟩

end CheckedScript.Regex
