import CheckedScript.Pattern

/-!
Laws of repetition and sequence. A repetition is greedy: where it stops, the tokens end, or its
pattern fails or takes nothing, and so does a repetition that starts there anew. Repeating a
repetition therefore adds nothing, whether or not the pattern can match without taking a token.
A sequence inside a sequence is spliced in.

Main results:
* `length_repetition_absorb`: a repetition finds nothing left a second time.
* `repetition_sequence_laws`: the laws.
-/

namespace CheckedScript.Pattern

open Token (Kind)

/-! ## Repetition -/

section

variable {m m' : List Token → Option Nat}

theorem repetition_nil (m : List Token → Option Nat) : repetition m [] = (0, 0) := by
  rw [repetition]

/-- On tokens, the first match decides whether there is any. -/
theorem count_repetition_eq_zero_iff {t : Token} {ts : List Token} :
    (repetition m (t :: ts)).2 = 0 ↔ m (t :: ts) = none := by
  rw [repetition]
  rcases m (t :: ts) with _ | _ | n <;> simp

/-- A first match that takes nothing is the last one, so there is no length without a match that
takes tokens. -/
theorem length_repetition_eq_zero {ts : List Token} (h : (m ts).getD 0 = 0) :
    (repetition m ts).1 = 0 := by
  cases ts with
  | nil => rw [repetition_nil]
  | cons t ts =>
    rw [repetition]
    rcases hm : m (t :: ts) with _ | _ | n
    · rfl
    · rfl
    · rw [hm] at h
      exact absurd h (Nat.succ_ne_zero n)

theorem length_repetition_of_count {ts : List Token} (h : (repetition m ts).2 = 0) :
    (repetition m ts).1 = 0 := by
  cases ts with
  | nil => rw [repetition_nil]
  | cons t ts =>
    apply length_repetition_eq_zero
    rw [count_repetition_eq_zero_iff.mp h]
    rfl

/-- Where a repetition has stopped, the same repetition takes nothing. -/
theorem length_repetition_behind (m : List Token → Option Nat) (ts : List Token) :
    (repetition m (ts.drop (repetition m ts).1)).1 = 0 := by
  fun_induction repetition m ts with
  | case1 => rw [List.drop_nil, repetition_nil]
  | case2 t ts hm =>
    apply length_repetition_eq_zero
    rw [List.drop_zero, hm]
    rfl
  | case3 t ts hm =>
    apply length_repetition_eq_zero
    rw [List.drop_zero, hm]
    rfl
  | case4 t ts n hn length count heq ih =>
    have hdrop : (t :: ts).drop (n + 1 + length) = (ts.drop n).drop length := by
      rw [List.drop_drop, Nat.add_right_comm, List.drop_succ_cons]
    rw [heq] at ih
    rw [hdrop]
    exact ih

/-- A match that takes what a whole repetition takes, or fails where the repetition takes nothing,
is not repeated: the second time it finds nothing left. -/
theorem length_repetition_absorb (h : ∀ ts, (m' ts).getD 0 = (repetition m ts).1)
    (ts : List Token) : (repetition m' ts).1 = (repetition m ts).1 := by
  cases ts with
  | nil => rw [repetition_nil, repetition_nil]
  | cons t ts =>
    have hfirst := h (t :: ts)
    rcases hm : m' (t :: ts) with _ | _ | n
    · rw [hm] at hfirst
      rw [length_repetition_eq_zero (by rw [hm]; rfl)]
      exact hfirst
    · rw [hm] at hfirst
      rw [length_repetition_eq_zero (by rw [hm]; rfl)]
      exact hfirst
    · rw [hm, Option.getD_some] at hfirst
      have hbehind : (repetition m' (ts.drop n)).1 = 0 := by
        apply length_repetition_eq_zero
        rw [h, ← length_repetition_behind m (t :: ts), ← hfirst, List.drop_succ_cons]
      have hlength : (repetition m' (t :: ts)).1 = n + 1 + (repetition m' (ts.drop n)).1 := by
        rw [repetition, hm]
      rw [hlength, hbehind, ← hfirst, Nat.add_zero]

end

section

variable (p : Pattern) (ts : List Token)

theorem matchLength_zeroOrMore :
    (zeroOrMore p).matchLength ts = some (repetition p.matchLength ts).1 := by
  rw [matchLength]

theorem matchLength_oneOrMore :
    (oneOrMore p).matchLength ts =
      if (repetition p.matchLength ts).2 = 0 then none
      else some (repetition p.matchLength ts).1 := by
  rw [matchLength]
  rcases repetition p.matchLength ts with ⟨length, _ | count⟩ <;> rfl

theorem getD_matchLength_oneOrMore :
    ((oneOrMore p).matchLength ts).getD 0 = (repetition p.matchLength ts).1 := by
  rw [matchLength_oneOrMore]
  split
  case isTrue hcount => exact (length_repetition_of_count hcount).symm
  case isFalse => rfl

theorem zeroOrMore_zeroOrMore :
    (zeroOrMore (zeroOrMore p)).matchLength ts = (zeroOrMore p).matchLength ts := by
  rw [matchLength_zeroOrMore, matchLength_zeroOrMore]
  refine congrArg some (length_repetition_absorb (fun us => ?_) ts)
  rw [matchLength_zeroOrMore]
  rfl

theorem zeroOrMore_oneOrMore :
    (zeroOrMore (oneOrMore p)).matchLength ts = (zeroOrMore p).matchLength ts := by
  rw [matchLength_zeroOrMore, matchLength_zeroOrMore]
  exact congrArg some (length_repetition_absorb (getD_matchLength_oneOrMore p) ts)

theorem oneOrMore_oneOrMore :
    (oneOrMore (oneOrMore p)).matchLength ts = (oneOrMore p).matchLength ts := by
  have hlength := length_repetition_absorb (getD_matchLength_oneOrMore p) ts
  -- Both fail together: the outer match has a first time exactly if the inner one has.
  have hcount : (repetition (oneOrMore p).matchLength ts).2 = 0 ↔
      (repetition p.matchLength ts).2 = 0 := by
    cases ts with
    | nil => rw [repetition_nil, repetition_nil]
    | cons t ts =>
      rw [count_repetition_eq_zero_iff, matchLength_oneOrMore]
      split
      case isTrue hnone => simp [hnone]
      case isFalse hsome => simp [hsome]
  rw [matchLength_oneOrMore, matchLength_oneOrMore, hlength]
  simp only [hcount]

/-- Once and then any number of times. Without tokens a repetition does not try its pattern, which
might match nothing there. -/
theorem oneOrMore_cons (t : Token) :
    (oneOrMore p).matchLength (t :: ts) = (sequence [p, zeroOrMore p]).matchLength (t :: ts) := by
  have hsequence : (sequence [p, zeroOrMore p]).matchLength (t :: ts) =
      (p.matchLength (t :: ts)).map fun n =>
        n + (repetition p.matchLength ((t :: ts).drop n)).1 := by
    rw [matchLength, matchSequence]
    cases p.matchLength (t :: ts) with
    | none => rfl
    | some n => simp [matchSequence, matchLength_zeroOrMore]
  rw [hsequence, matchLength_oneOrMore]
  rcases hm : p.matchLength (t :: ts) with _ | _ | n
  · rw [if_pos (count_repetition_eq_zero_iff.mpr hm)]
    rfl
  · have hlength : (repetition p.matchLength (t :: ts)).1 = 0 :=
      length_repetition_eq_zero (by rw [hm]; rfl)
    rw [if_neg (by rw [count_repetition_eq_zero_iff, hm]; simp), Option.map_some, List.drop_zero,
      hlength]
  · rw [if_neg (by rw [count_repetition_eq_zero_iff, hm]; simp), repetition, hm]
    rfl

example :
    (oneOrMore (zeroOrMore (exact [.comma]))).matchLength [] = none ∧
      (sequence [zeroOrMore (exact [.comma]), zeroOrMore (zeroOrMore (exact [.comma]))]).matchLength
        [] = some 0 := by
  decide +kernel

end

/-! ## Sequence -/

/-- The second part goes on where the first one stops. -/
theorem matchSequence_append (ps qs : List Pattern) (ts : List Token) :
    matchSequence (ps ++ qs) ts =
      (matchSequence ps ts).bind fun n => (matchSequence qs (ts.drop n)).map (n + ·) := by
  induction ps generalizing ts with
  | nil => simp [matchSequence]
  | cons p ps ih =>
    rw [List.cons_append, matchSequence, matchSequence]
    cases p.matchLength ts with
    | none => rfl
    | some n =>
      simp only [ih, Option.map_bind, Option.bind_map]
      refine congrArg (Option.bind (matchSequence ps (ts.drop n))) (funext fun k => ?_)
      simp only [Function.comp_apply, Option.map_map, List.drop_drop]
      refine congrArg (Option.map · (matchSequence qs (ts.drop (n + k)))) (funext fun l => ?_)
      exact (Nat.add_assoc n k l).symm

theorem matchSequence_sequence_cons (ps qs : List Pattern) (ts : List Token) :
    matchSequence (sequence ps :: qs) ts = matchSequence (ps ++ qs) ts := by
  rw [matchSequence, matchLength, matchSequence_append]
  cases matchSequence ps ts <;> rfl

theorem sequence_splice (ps qs rs : List Pattern) (ts : List Token) :
    (sequence (ps ++ [sequence qs] ++ rs)).matchLength ts =
      (sequence (ps ++ qs ++ rs)).matchLength ts := by
  rw [matchLength, matchLength, List.append_assoc, List.append_assoc, matchSequence_append ps,
    matchSequence_append ps, List.singleton_append]
  simp only [matchSequence_sequence_cons]

/-- Repeating a repetition adds nothing, at least one match is one match and then any number where
there are tokens, and a sequence in a sequence is the sequence of its parts. -/
theorem repetition_sequence_laws (p : Pattern) (xs ys zs : List Pattern) (ts : List Token) :
    (zeroOrMore (zeroOrMore p)).matchLength ts = (zeroOrMore p).matchLength ts ∧
    (zeroOrMore (oneOrMore p)).matchLength ts = (zeroOrMore p).matchLength ts ∧
    (oneOrMore (oneOrMore p)).matchLength ts = (oneOrMore p).matchLength ts ∧
    (ts ≠ [] →
      (oneOrMore p).matchLength ts = (sequence [p, zeroOrMore p]).matchLength ts) ∧
    (sequence (xs ++ [sequence ys] ++ zs)).matchLength ts =
      (sequence (xs ++ ys ++ zs)).matchLength ts := by
  refine ⟨zeroOrMore_zeroOrMore p ts, zeroOrMore_oneOrMore p ts, oneOrMore_oneOrMore p ts,
    fun hne => ?_, sequence_splice xs ys zs ts⟩
  obtain ⟨t, ts, rfl⟩ := List.exists_cons_of_ne_nil hne
  exact oneOrMore_cons p ts t

/-- A pattern that matches nothing in front of a colon. -/
theorem repetition_sequence_laws_empty_match :
    let p := zeroOrMore (exact [Kind.comma])
    let ts : List Token := [⟨.colon, ":", {}⟩]
    ts ≠ [] ∧ p.matchLength ts = some 0 ∧
      (oneOrMore p).matchLength ts = (sequence [p, zeroOrMore p]).matchLength ts := by
  intro p ts
  have hne : ts ≠ [] := by simp [ts]
  obtain ⟨-, -, -, hone, -⟩ := repetition_sequence_laws p [] [] [] ts
  exact ⟨hne, by decide +kernel, hone hne⟩

end CheckedScript.Pattern
