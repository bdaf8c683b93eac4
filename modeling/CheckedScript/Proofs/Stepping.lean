import Mathlib.Logic.Relation
import CheckedScript.Proofs.Access

/-!
Matching step by step. The recursion over patterns and the loops inside it are taken apart into
steps on a stack of unfinished patterns. Nothing bounds the number of steps: a loop goes on for as
long as its condition holds, and a stretch out of range is a state of its own.
One match after the other, the steps come to where `Indexed.matchLength` does, so every run ends,
with the length of the pattern.

Main results:
* `Matching.steps_matching`: a match comes to its outcome.
* `Pattern.matching_terminates_in_range`: every match ends and stays within the tokens.
-/

namespace CheckedScript.Matching

open Indexed (Reading Stop)

/-- A pattern that waits for the match of a part. -/
inductive Frame
  /-- A repetition, its part required at least once or not. So far `count` matches took `offset`
  of the tokens. -/
  | repeating (required : Bool) (p : Pattern) (ts : List Token) (offset count : Nat)
  /-- A sequence with `ps` left to match, of whose tokens `offset` are taken. -/
  | sequencing (ps : List Pattern) (ts : List Token) (offset : Nat)

inductive State
  /-- A pattern is to be matched at the front of tokens. -/
  | matching (p : Pattern) (ts : List Token) (frames : List Frame)
  /-- A repetition or a sequence stands at the head of its loop. -/
  | resuming (frame : Frame) (frames : List Frame)
  /-- A match has ended, and the topmost frame takes its outcome. -/
  | ended (outcome : Option Nat) (frames : List Frame)
  /-- An access went wrong. -/
  | stopped (stop : Stop)

/-- Goes on with what is read, if the access is allowed. -/
def proceed {α : Type} (next : α → State) : Reading α → State
  | .ok a => next a
  | .error stop => .stopped stop

/-- The outcome of a repetition that is over. -/
def Frame.outcome (required : Bool) (offset count : Nat) : Option Nat :=
  if required ∧ count = 0 then none else some offset

/-- One step. What is read once from front to back, kinds, single tokens and blocks, is matched in
one. A match that has ended for good goes nowhere. -/
def step : State → Option State
  | .matching (.exact kinds) ts frames => some (.ended (Pattern.matchExact kinds ts) frames)
  | .matching (.other kind) ts frames =>
    some (.ended (Pattern.matchOne (fun k => k ≠ kind) ts) frames)
  | .matching (.oneOf kinds) ts frames =>
    some (.ended (Pattern.matchOne (fun k => kinds.contains k) ts) frames)
  | .matching (.oneOrMore p) ts frames => some (.resuming (.repeating true p ts 0 0) frames)
  | .matching (.zeroOrMore p) ts frames => some (.resuming (.repeating false p ts 0 0) frames)
  | .matching (.sequence ps) ts frames => some (.resuming (.sequencing ps ts 0) frames)
  | .matching (.block opener closer) ts frames =>
    some (proceed (.ended · frames) (Indexed.matchBlock opener closer ts))
  | .resuming (.repeating required p ts offset count) frames =>
    if offset < ts.length then
      some (proceed (fun rest => .matching p rest (.repeating required p ts offset count :: frames))
        (Indexed.onward ts offset))
    else some (.ended (Frame.outcome required offset count) frames)
  | .resuming (.sequencing [] _ offset) frames => some (.ended (some offset) frames)
  | .resuming (.sequencing (p :: ps) ts offset) frames =>
    some (proceed (fun rest => .matching p rest (.sequencing ps ts offset :: frames))
      (Indexed.onward ts offset))
  | .ended none (.repeating required _ _ offset count :: frames) =>
    some (.ended (Frame.outcome required offset count) frames)
  | .ended (some 0) (.repeating required _ _ offset count :: frames) =>
    some (.ended (Frame.outcome required offset (count + 1)) frames)
  | .ended (some (n + 1)) (.repeating required p ts offset count :: frames) =>
    some (.resuming (.repeating required p ts (offset + (n + 1)) (count + 1)) frames)
  | .ended none (.sequencing .. :: frames) => some (.ended none frames)
  | .ended (some n) (.sequencing ps ts offset :: frames) =>
    some (.resuming (.sequencing ps ts (offset + n)) frames)
  | .ended _ [] => none
  | .stopped _ => none

def Step (s s' : State) : Prop := step s = some s'

/-- Any number of steps. -/
abbrev Steps : State → State → Prop := Relation.ReflTransGen Step

/-- Every run from `s` comes to an end. -/
def Terminates (s : State) : Prop := Acc (fun s' s => Step s s') s

/-! ## Runs -/

section

variable {s s' u : State}

theorem Step.unique : Relator.RightUnique Step :=
  fun _ _ _ h h' => Option.some.inj (h.symm.trans h')

theorem step_ended_sequencing (n : Nat) (ps : List Pattern) (ts : List Token) (offset : Nat)
    (frames : List Frame) :
    step (.ended (some n) (.sequencing ps ts offset :: frames)) =
      some (.resuming (.sequencing ps ts (offset + n)) frames) := by
  cases n <;> rfl

theorem step_ended_nil (outcome : Option Nat) : step (.ended outcome []) = none := by
  rcases outcome with _ | _ | n <;> rfl

/-- There is one way to go, so a run that ends is the only one. -/
theorem Steps.terminates (h : Steps s s') (hend : step s' = none) : Terminates s := by
  induction h using Relation.ReflTransGen.head_induction_on with
  | refl =>
    refine Acc.intro s' fun u hu => ?_
    cases hend.symm.trans hu
  | head hstep _ ih =>
    refine Acc.intro _ fun u hu => ?_
    rw [Step.unique hu hstep]
    exact ih

theorem Steps.eq_of_end (h : Steps s u) (hend : step s = none) : u = s := by
  obtain rfl | ⟨s', hstep, -⟩ := h.cases_head
  · rfl
  · cases hend.symm.trans hstep

theorem Steps.end_unique (h : Steps s s') (h' : Steps s u) (hend : step s' = none)
    (hend' : step u = none) : u = s' := by
  obtain hforth | hback := h.total_of_right_unique Step.unique h'
  · exact Steps.eq_of_end hforth hend
  · exact (Steps.eq_of_end hback hend').symm

end

/-! ## What the steps come to -/

/-- The steps of a repetition, if those of its part are known. -/
theorem steps_repeating {p : Pattern}
    (hp : ∀ ts frames, Steps (.matching p ts frames)
      (proceed (.ended · frames) (Indexed.matchLength p ts)))
    (required : Bool) (ts : List Token) (offset count : Nat) (frames : List Frame) :
    Steps (.resuming (.repeating required p ts offset count) frames)
      (proceed (fun taken => .ended (Frame.outcome required taken.1 taken.2) frames)
        (Indexed.repeatFrom (Indexed.matchLength p) ts offset count)) := by
  -- The loop moves on with every match that it repeats, by what the match took.
  induction hleft : ts.length - offset using Nat.strongRecOn generalizing offset count with
  | ind left ih =>
    subst hleft
    rw [Indexed.repeatFrom]
    split
    case isFalse hge => exact .single (if_neg hge)
    case isTrue hlt =>
      refine .head (if_pos hlt) ?_
      cases Indexed.onward ts offset with
      | error stop => exact .refl
      | ok rest =>
        refine (hp rest _).trans ?_
        rw [Indexed.ok_bind]
        rcases Indexed.matchLength p rest with stop | _ | _ | n
        · exact .refl
        · exact .single rfl
        · exact .single rfl
        · exact .head rfl (ih _ (by omega) (offset + (n + 1)) (count + 1) rfl)

mutual

/-- A match comes to its outcome, whatever waits for it. -/
theorem steps_matching : ∀ (p : Pattern) (ts : List Token) (frames : List Frame),
    Steps (.matching p ts frames) (proceed (.ended · frames) (Indexed.matchLength p ts))
  | .exact kinds, ts, frames => by
    rw [Indexed.matchLength]
    exact .single rfl
  | .other kind, ts, frames => by
    rw [Indexed.matchLength]
    exact .single rfl
  | .oneOf kinds, ts, frames => by
    rw [Indexed.matchLength]
    exact .single rfl
  | .oneOrMore p, ts, frames => by
    refine .head rfl ((steps_repeating (steps_matching p) true ts 0 0 frames).trans ?_)
    rw [Indexed.matchLength]
    rcases Indexed.repeatFrom (Indexed.matchLength p) ts 0 0 with stop | ⟨length, _ | count⟩ <;>
      exact .refl
  | .zeroOrMore p, ts, frames => by
    refine .head rfl ((steps_repeating (steps_matching p) false ts 0 0 frames).trans ?_)
    rw [Indexed.matchLength]
    rcases Indexed.repeatFrom (Indexed.matchLength p) ts 0 0 with stop | ⟨length, count⟩ <;>
      exact .refl
  | .sequence ps, ts, frames => by
    rw [Indexed.matchLength]
    exact .head rfl (steps_sequencing ps ts 0 frames)
  | .block opener closer, ts, frames => by
    rw [Indexed.matchLength]
    exact .single rfl

theorem steps_sequencing : ∀ (ps : List Pattern) (ts : List Token) (offset : Nat)
    (frames : List Frame),
    Steps (.resuming (.sequencing ps ts offset) frames)
      (proceed (.ended · frames) (Indexed.matchSequence ps ts offset))
  | [], ts, offset, frames => by
    rw [Indexed.matchSequence]
    exact .single rfl
  | p :: ps, ts, offset, frames => by
    rw [Indexed.matchSequence]
    refine .head rfl ?_
    cases Indexed.onward ts offset with
    | error stop => exact .refl
    | ok rest =>
      refine (steps_matching p rest _).trans ?_
      rw [Indexed.ok_bind]
      rcases Indexed.matchLength p rest with stop | _ | n
      · exact .refl
      · exact .single rfl
      · exact .head (step_ended_sequencing n ps ts offset frames)
          (steps_sequencing ps ts (offset + n) frames)

end

end CheckedScript.Matching

namespace CheckedScript.Pattern

open Matching (State Steps Terminates)

/-- Matching any pattern at the front of any tokens ends, with the length of the pattern, which is
at most that of the tokens. On the way no stretch is out of range. A repetition that may take
nothing always matches. -/
theorem matching_terminates_in_range (p : Pattern) (ts : List Token) :
    Terminates (.matching p ts []) ∧
    Steps (.matching p ts []) (.ended (p.matchLength ts) []) ∧
    (∀ stop, ¬Steps (.matching p ts []) (.stopped stop)) ∧
    (∀ n, p.matchLength ts = some n → n ≤ ts.length) ∧
    (zeroOrMore p).matchLength ts ≠ none := by
  have hsteps : Steps (.matching p ts []) (.ended (p.matchLength ts) []) := by
    have h := Matching.steps_matching p ts []
    rwa [Indexed.matchLength_refines] at h
  have hend := Matching.step_ended_nil (p.matchLength ts)
  refine ⟨Steps.terminates hsteps hend, hsteps, fun stop hstop => ?_, matchLength_le p ts, ?_⟩
  · cases Steps.end_unique hsteps hstop hend rfl
  · rw [matchLength]
    simp

/-- Repetitions of a repetition that takes nothing. -/
theorem matching_terminates_in_range_nested :
    let p := zeroOrMore (oneOrMore (zeroOrMore (exact [.comma])))
    let ts : List Token := [⟨.comma, ",", {}⟩, ⟨.colon, ":", {}⟩]
    p.matchLength ts = some 1 ∧ 1 ≤ ts.length ∧ Terminates (.matching p ts []) := by
  intro p ts
  have hmatch : p.matchLength ts = some 1 := by decide +kernel
  obtain ⟨hends, -, -, hbound, -⟩ := matching_terminates_in_range p ts
  exact ⟨hmatch, hbound 1 hmatch, hends⟩

end CheckedScript.Pattern
