import CheckedScript.Program.Grammar
import CheckedScript.Proofs.Pattern

/-!
Matching by number. The patterns are read once more with counters into one list of tokens, where
every access can go wrong: a number or a stretch out of range, a difference below zero, a loop
that stays where it is. None of that happens, and the lengths are those of the patterns.

Main result:
* `Indexed.matchLength_refines`: a match by number has an outcome, and it is that of the pattern.
-/

namespace CheckedScript

open Token (Kind)

namespace Indexed

/-- What tokens do not allow. -/
inductive Violation
  | outOfRange
  | belowZero
  | stalled
deriving DecidableEq, Repr

/-- What ends a reading early. -/
inductive Stop
  /-- The tokens are refused. -/
  | refused (e : CompileError)
  | violated (v : Violation)

abbrev Reading (α : Type) := Except Stop α

/-! ## Accesses -/

/-- Token number `i`. -/
def token (ts : List Token) (i : Nat) : Reading Token :=
  match ts[i]? with
  | some t => .ok t
  | none => .error (.violated .outOfRange)

/-- The tokens from number `start` up to number `stop`. -/
def stretch (ts : List Token) (start stop : Nat) : Reading (List Token) :=
  match Grammar.slice? ts start stop with
  | some us => .ok us
  | none => .error (.violated .outOfRange)

/-- The tokens from number `start` on. -/
def onward (ts : List Token) (start : Nat) : Reading (List Token) := stretch ts start ts.length

def difference (a b : Nat) : Reading Nat :=
  if b ≤ a then .ok (a - b) else .error (.violated .belowZero)

section

variable {α β : Type} {ts : List Token} {start stop : Nat}

@[simp] theorem ok_bind (a : α) (f : α → Reading β) : (Except.ok a >>= f) = f a := rfl

theorem token_eq {i : Nat} {t : Token} (h : ts[i]? = some t) : token ts i = .ok t := by
  rw [token, h]

theorem stretch_eq (h : start ≤ stop) (h' : stop ≤ ts.length) :
    stretch ts start stop = .ok ((ts.take stop).drop start) := by
  rw [stretch, Grammar.slice?, if_pos ⟨h, h'⟩]

theorem stretch_zero (h : stop ≤ ts.length) : stretch ts 0 stop = .ok (ts.take stop) :=
  stretch_eq (Nat.zero_le stop) h

theorem onward_eq (h : start ≤ ts.length) : onward ts start = .ok (ts.drop start) := by
  rw [onward, stretch_eq h (Nat.le_refl _), List.take_length]

theorem difference_eq {a b : Nat} (h : b ≤ a) : difference a b = .ok (a - b) := if_pos h

end

/-! ## Patterns -/

/-- Repeated matches from number `offset` on, of which there were `count` before: the number
behind the last of them, and how many there are. -/
def repeatFrom (m : List Token → Reading (Option Nat)) (ts : List Token) (offset count : Nat) :
    Reading (Nat × Nat) :=
  if offset < ts.length then do
    let rest ← onward ts offset
    match ← m rest with
    | none => return (offset, count)
    | some 0 => return (offset, count + 1)
    | some (n + 1) => repeatFrom m ts (offset + (n + 1)) (count + 1)
  else return (offset, count)
termination_by ts.length - offset

/-- Looks for the closer from token number `i` on, with `depth` blocks open. -/
def scanFrom (opener closer : Kind) (depth i : Nat) : List Token → Reading (Option Nat)
  | [] => return none
  | t :: ts =>
    if t.kind = closer then do
      let depth ← difference depth 1
      if depth = 0 then return some (i + 1) else scanFrom opener closer depth (i + 1) ts
    else if t.kind = opener ∧ opener ≠ closer then scanFrom opener closer (depth + 1) (i + 1) ts
    else scanFrom opener closer depth (i + 1) ts

def matchBlock (opener closer : Kind) : List Token → Reading (Option Nat)
  | [] => return none
  | t :: ts => if t.kind = opener then scanFrom opener closer 1 1 ts else return none

mutual

def matchLength : Pattern → List Token → Reading (Option Nat)
  | .exact kinds, ts => return Pattern.matchExact kinds ts
  | .other kind, ts => return Pattern.matchOne (fun k => k ≠ kind) ts
  | .oneOf kinds, ts => return Pattern.matchOne (fun k => kinds.contains k) ts
  | .oneOrMore p, ts => do
    match ← repeatFrom (matchLength p) ts 0 0 with
    | (_, 0) => return none
    | (length, _ + 1) => return some length
  | .zeroOrMore p, ts => do
    let (length, _) ← repeatFrom (matchLength p) ts 0 0
    return some length
  | .sequence ps, ts => matchSequence ps ts 0
  | .block opener closer, ts => matchBlock opener closer ts

/-- The patterns one after the other, from number `offset` on. -/
def matchSequence : List Pattern → List Token → Nat → Reading (Option Nat)
  | [], _, offset => return some offset
  | p :: ps, ts, offset => do
    let rest ← onward ts offset
    match ← matchLength p rest with
    | none => return none
    | some n => matchSequence ps ts (offset + n)

end

/-- The loop over the list is the recursion over what is left of it. -/
theorem repeatFrom_refines {m : List Token → Reading (Option Nat)} {m' : List Token → Option Nat}
    (hm : ∀ ts, m ts = .ok (m' ts)) (hle : ∀ ts n, m' ts = some n → n ≤ ts.length)
    (ts : List Token) {offset : Nat} (hoffset : offset ≤ ts.length) (count : Nat) :
    repeatFrom m ts offset count =
      .ok (offset + (Pattern.repetition m' (ts.drop offset)).1,
        count + (Pattern.repetition m' (ts.drop offset)).2) := by
  induction hleft : ts.length - offset using Nat.strongRecOn generalizing offset count with
  | ind left ih =>
    subst hleft
    rw [repeatFrom]
    split
    case isTrue hlt =>
      rw [onward_eq hoffset, ok_bind, hm, ok_bind]
      have hrest := List.drop_eq_getElem_cons hlt
      rw [hrest, Pattern.repetition]
      cases hmatch : m' (ts[offset] :: ts.drop (offset + 1)) with
      | none => rfl
      | some n =>
        cases n with
        | zero => rfl
        | succ n =>
          have hbound : n + 1 ≤ ts.length - offset := by
            have := hle _ _ hmatch
            rwa [← hrest, List.length_drop] at this
          have htail : (ts.drop (offset + 1)).drop n = ts.drop (offset + (n + 1)) := by
            rw [List.drop_drop, Nat.add_assoc, Nat.add_comm 1]
          show repeatFrom m ts (offset + (n + 1)) (count + 1) = _
          rw [ih _ (by omega) (by omega) (count + 1) rfl]
          simp only [htail, Nat.add_assoc, Nat.add_comm 1]
    case isFalse hge =>
      have hend : ts.drop offset = [] := List.drop_eq_nil_of_le (by omega)
      rw [hend, Pattern.repetition]
      rfl

/-- An open block has a positive depth, so the counter can be lowered. -/
theorem scanFrom_refines (opener closer : Kind) {depth : Nat} (hdepth : 0 < depth) (i : Nat)
    (ts : List Token) :
    scanFrom opener closer depth i ts =
      .ok ((Pattern.matchClose opener closer depth ts).map (i + ·)) := by
  induction ts generalizing depth i with
  | nil => rfl
  | cons t ts ih =>
    have hlater : ∀ depth', 0 < depth' → scanFrom opener closer depth' (i + 1) ts =
        .ok (((Pattern.matchClose opener closer depth' ts).map (· + 1)).map (i + ·)) := by
      intro depth' hdepth'
      rw [ih hdepth', Option.map_map]
      congr 2
      funext n
      show i + 1 + n = i + (n + 1)
      omega
    rw [scanFrom, Pattern.matchClose]
    by_cases hclose : t.kind = closer
    · rw [if_pos hclose, if_pos hclose, difference_eq hdepth, ok_bind]
      by_cases hlast : depth ≤ 1
      · rw [if_pos (by omega), if_pos hlast]
        rfl
      · rw [if_neg (by omega), if_neg hlast]
        exact hlater _ (by omega)
    · rw [if_neg hclose, if_neg hclose]
      by_cases hopen : t.kind = opener
      · rw [if_pos ⟨hopen, fun h => hclose (hopen.trans h)⟩, if_pos hopen]
        exact hlater _ (Nat.succ_pos depth)
      · rw [if_neg fun h => hopen h.1, if_neg hopen]
        exact hlater _ hdepth

theorem matchBlock_refines (opener closer : Kind) (ts : List Token) :
    matchBlock opener closer ts = .ok (Pattern.matchBlock opener closer ts) := by
  cases ts with
  | nil => rfl
  | cons t ts =>
    rw [matchBlock, Pattern.matchBlock]
    split
    · rw [scanFrom_refines opener closer Nat.one_pos]
      simp only [Nat.add_comm 1]
    · rfl

mutual

/-- No access of a match goes wrong. -/
theorem matchLength_refines : ∀ (p : Pattern) (ts : List Token),
    matchLength p ts = .ok (p.matchLength ts)
  | .exact kinds, ts => by rw [matchLength, Pattern.matchLength]; rfl
  | .other kind, ts => by rw [matchLength, Pattern.matchLength]; rfl
  | .oneOf kinds, ts => by rw [matchLength, Pattern.matchLength]; rfl
  | .oneOrMore p, ts => by
    rw [matchLength, Pattern.matchLength, repeatFrom_refines (matchLength_refines p)
      (Pattern.matchLength_le p) ts (Nat.zero_le _), ok_bind, List.drop_zero, Nat.zero_add,
      Nat.zero_add]
    rcases Pattern.repetition p.matchLength ts with ⟨length, _ | count⟩ <;> rfl
  | .zeroOrMore p, ts => by
    rw [matchLength, Pattern.matchLength, repeatFrom_refines (matchLength_refines p)
      (Pattern.matchLength_le p) ts (Nat.zero_le _), ok_bind, List.drop_zero, Nat.zero_add]
    rfl
  | .sequence ps, ts => by
    rw [matchLength, Pattern.matchLength, matchSequence_refines ps ts (Nat.zero_le _),
      List.drop_zero]
    simp
  | .block opener closer, ts => by
    rw [matchLength, Pattern.matchLength, matchBlock_refines]

theorem matchSequence_refines : ∀ (ps : List Pattern) (ts : List Token) {offset : Nat},
    offset ≤ ts.length →
    matchSequence ps ts offset = .ok ((Pattern.matchSequence ps (ts.drop offset)).map (offset + ·))
  | [], ts, offset, _ => by rw [matchSequence, Pattern.matchSequence]; rfl
  | p :: ps, ts, offset, h => by
    rw [matchSequence, Pattern.matchSequence, onward_eq h, ok_bind, matchLength_refines p, ok_bind]
    cases hmatch : p.matchLength (ts.drop offset) with
    | none => rfl
    | some n =>
      have hbound := Pattern.matchLength_le p _ n hmatch
      rw [List.length_drop] at hbound
      have hnext : offset + n ≤ ts.length := by omega
      dsimp only
      rw [matchSequence_refines ps ts hnext, List.drop_drop, Option.map_map]
      congr 2
      funext k
      exact Nat.add_assoc offset n k

end

end Indexed

end CheckedScript
