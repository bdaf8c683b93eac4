import CheckedScript.Token

/-!
Patterns over tokens. A pattern says how many tokens it matches at the front of a list, or that
it does not match. Repetition is greedy and never backtracks.
-/

namespace CheckedScript

open Token (Kind)

inductive Pattern
  /-- Tokens of exactly these kinds. -/
  | exact (kinds : List Kind)
  /-- One token of another kind. -/
  | other (kind : Kind)
  /-- One token of one of these kinds. -/
  | oneOf (kinds : List Kind)
  /-- The pattern as often as it matches, at least once. -/
  | oneOrMore (p : Pattern)
  /-- The pattern as often as it matches. -/
  | zeroOrMore (p : Pattern)
  /-- The patterns one after the other. -/
  | sequence (ps : List Pattern)
  /-- A balanced stretch from `opener` to its `closer`. -/
  | block (opener closer : Kind)

namespace Pattern

/-- One token that satisfies `p`. -/
def matchOne (p : Kind → Bool) : List Token → Option Nat
  | t :: _ => if p t.kind then some 1 else none
  | [] => none

/-- Tokens of exactly the given kinds, in order. -/
def matchExact : List Kind → List Token → Option Nat
  | [], _ => some 0
  | kind :: kinds, t :: ts => if t.kind = kind then (matchExact kinds ts).map (· + 1) else none
  | _ :: _, [] => none

/-- How many tokens repeated matches take and how often they match. A match of no tokens counts
once and ends the repetition. -/
def repetition (m : List Token → Option Nat) : List Token → Nat × Nat
  | [] => (0, 0)
  | t :: ts =>
    match m (t :: ts) with
    | none => (0, 0)
    | some 0 => (0, 1)
    | some (n + 1) =>
      let (length, count) := repetition m (ts.drop n)
      (n + 1 + length, count + 1)
termination_by ts => ts.length
decreasing_by simp only [List.length_drop, List.length_cons]; omega

/-- Reads on inside `depth` open blocks, up to the closer of the outermost. A closer is tested
first, so a block whose two ends are of one kind ends at the next token of it. -/
def matchClose (opener closer : Kind) : Nat → List Token → Option Nat
  | _, [] => none
  | depth, t :: ts =>
    if t.kind = closer then
      if depth ≤ 1 then some 1 else (matchClose opener closer (depth - 1) ts).map (· + 1)
    else if t.kind = opener then (matchClose opener closer (depth + 1) ts).map (· + 1)
    else (matchClose opener closer depth ts).map (· + 1)

def matchBlock (opener closer : Kind) : List Token → Option Nat
  | t :: ts => if t.kind = opener then (matchClose opener closer 1 ts).map (· + 1) else none
  | [] => none

mutual

/-- How many tokens the pattern matches at the front of a list. -/
def matchLength : Pattern → List Token → Option Nat
  | exact kinds, ts => matchExact kinds ts
  | other kind, ts => matchOne (fun k => k ≠ kind) ts
  | oneOf kinds, ts => matchOne (fun k => kinds.contains k) ts
  | oneOrMore p, ts =>
    match repetition (matchLength p) ts with
    | (_, 0) => none
    | (length, _ + 1) => some length
  | zeroOrMore p, ts => some (repetition (matchLength p) ts).1
  | sequence ps, ts => matchSequence ps ts
  | block opener closer, ts => matchBlock opener closer ts

def matchSequence : List Pattern → List Token → Option Nat
  | [], _ => some 0
  | p :: ps, ts =>
    match matchLength p ts with
    | none => none
    | some n => (matchSequence ps (ts.drop n)).map (n + ·)

end

end Pattern

end CheckedScript
