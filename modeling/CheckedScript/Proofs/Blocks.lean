import Mathlib.Order.Bounds.Basic
import CheckedScript.Proofs.Access

/-!
The length of a block. The scan keeps count of the blocks that are open and stops when the count
comes to zero. Seen from outside, it stops at the shortest stretch from the front with equally
many openers and closers; if these are of one kind, at the next token of it.

Main results:
* `matchClose_same_eq_some_iff`: ends of one kind meet at the next token of it.
* `matchBlock_shortest`: the length of any block.
-/

namespace CheckedScript

open Token (Kind)

/-- The least of numbers that are all positive, found one further down. -/
theorem isLeast_iff_exists_succ {s s' : Set Nat} (hzero : 0 ∉ s)
    (hsucc : ∀ n, n + 1 ∈ s ↔ n ∈ s') {m : Nat} :
    IsLeast s m ↔ ∃ n, m = n + 1 ∧ IsLeast s' n := by
  constructor
  · rintro ⟨hmem, hleast⟩
    cases m with
    | zero => exact absurd hmem hzero
    | succ n =>
      exact ⟨n, rfl, (hsucc n).mp hmem,
        fun k hk => Nat.le_of_succ_le_succ (hleast ((hsucc k).mpr hk))⟩
  · rintro ⟨n, rfl, hmem, hleast⟩
    refine ⟨(hsucc n).mpr hmem, fun k hk => ?_⟩
    cases k with
    | zero => exact absurd hk hzero
    | succ k => exact Nat.succ_le_succ (hleast ((hsucc k).mp hk))

namespace Pattern

/-- The number of tokens of a kind. -/
def occurrences (kind : Kind) (ts : List Token) : Nat := (ts.map (·.kind)).count kind

theorem occurrences_cons (kind : Kind) (t : Token) (ts : List Token) :
    occurrences kind (t :: ts) = occurrences kind ts + if t.kind = kind then 1 else 0 := by
  simp [occurrences, List.count_cons]

/-- The lengths of the stretches from the front with equally many openers and closers. -/
def balancedLengths (opener closer : Kind) (ts : List Token) : Set Nat :=
  {n | 0 < n ∧ n ≤ ts.length ∧
    occurrences opener (ts.take n) = occurrences closer (ts.take n)}

/-- The numbers of the tokens of a kind behind the first token. -/
def laterNumbers (kind : Kind) (ts : List Token) : Set Nat :=
  {i | 0 < i ∧ ∃ t, ts[i]? = some t ∧ t.kind = kind}

/-- `n` tokens reach from the first to the one that closes the block it opens. -/
def ReachesCloser (opener closer : Kind) (ts : List Token) (n : Nat) : Prop :=
  opener = closer ∧ IsLeast (laterNumbers opener ts) (n - 1) ∨
    opener ≠ closer ∧ IsLeast (balancedLengths opener closer ts) n

/-! ## Inside open blocks -/

/-- The lengths of the stretches from the front that close `depth` blocks. -/
def closingLengths (opener closer : Kind) (depth : Nat) (ts : List Token) : Set Nat :=
  {n | n ≤ ts.length ∧
    occurrences closer (ts.take n) = occurrences opener (ts.take n) + depth}

section

variable {opener closer : Kind} {depth : Nat} {t : Token} {ts : List Token} {n : Nat}

theorem zero_mem_closingLengths_iff : 0 ∈ closingLengths opener closer depth ts ↔ depth = 0 := by
  simp [closingLengths, occurrences, eq_comm]

theorem isLeast_closingLengths_zero_iff :
    IsLeast (closingLengths opener closer 0 ts) n ↔ n = 0 := by
  have hzero : 0 ∈ closingLengths opener closer 0 ts := zero_mem_closingLengths_iff.mpr rfl
  constructor
  · exact fun h => Nat.le_zero.mp (h.2 hzero)
  · rintro rfl
    exact ⟨hzero, fun _ _ => Nat.zero_le _⟩

/-- One token on, the depth has changed by what the token opens or closes. -/
theorem isLeast_closingLengths_cons_iff (hdepth : 0 < depth) {depth' : Nat}
    (hstep : (if t.kind = closer then 1 else 0) + depth' =
      (if t.kind = opener then 1 else 0) + depth) :
    IsLeast (closingLengths opener closer depth (t :: ts)) n ↔
      ∃ m, n = m + 1 ∧ IsLeast (closingLengths opener closer depth' ts) m := by
  refine isLeast_iff_exists_succ
    (fun h => Nat.ne_of_gt hdepth (zero_mem_closingLengths_iff.mp h)) fun m => ?_
  simp only [closingLengths, Set.mem_ofPred_eq, List.length_cons, List.take_succ_cons,
    occurrences_cons]
  omega

theorem matchClose_eq_some_iff_isLeast (hne : opener ≠ closer) (hdepth : 0 < depth) :
    matchClose opener closer depth ts = some n ↔
      IsLeast (closingLengths opener closer depth ts) n := by
  induction ts generalizing depth n with
  | nil =>
    refine iff_of_false nofun fun h => ?_
    obtain rfl : n = 0 := Nat.le_zero.mp h.1.1
    exact Nat.ne_of_gt hdepth (zero_mem_closingLengths_iff.mp h.1)
  | cons t ts ih =>
    have hlater : ∀ depth', 0 < depth' →
        ((matchClose opener closer depth' ts).map (· + 1) = some n ↔
          ∃ m, n = m + 1 ∧ IsLeast (closingLengths opener closer depth' ts) m) := by
      intro depth' hdepth'
      rw [Option.map_eq_some_iff]
      exact exists_congr fun m => by rw [ih hdepth', and_comm, eq_comm]
    rw [matchClose]
    by_cases hclose : t.kind = closer
    · have hopen : ¬t.kind = opener := fun h => hne (h.symm.trans hclose)
      have hstep : (if t.kind = closer then 1 else 0) + (depth - 1) =
          (if t.kind = opener then 1 else 0) + depth := by
        rw [if_pos hclose, if_neg hopen]
        omega
      rw [if_pos hclose, isLeast_closingLengths_cons_iff hdepth hstep]
      split
      · obtain rfl : depth = 1 := by omega
        simp [isLeast_closingLengths_zero_iff, eq_comm]
      · exact hlater (depth - 1) (by omega)
    · rw [if_neg hclose]
      by_cases hopen : t.kind = opener
      · have hstep : (if t.kind = closer then 1 else 0) + (depth + 1) =
            (if t.kind = opener then 1 else 0) + depth := by
          rw [if_neg hclose, if_pos hopen]
          omega
        rw [if_pos hopen, isLeast_closingLengths_cons_iff hdepth hstep]
        exact hlater (depth + 1) (Nat.succ_pos depth)
      · have hstep : (if t.kind = closer then 1 else 0) + depth =
            (if t.kind = opener then 1 else 0) + depth := by
          rw [if_neg hclose, if_neg hopen]
        rw [if_neg hopen, isLeast_closingLengths_cons_iff hdepth hstep]
        exact hlater depth hdepth

/-- Between two ends of one kind nothing is opened. -/
theorem matchClose_same_eq_some_iff {kind : Kind} :
    matchClose kind kind 1 ts = some n ↔
      ∃ i, n = i + 1 ∧ IsLeast {i | ∃ t, ts[i]? = some t ∧ t.kind = kind} i := by
  induction ts generalizing n with
  | nil =>
    refine iff_of_false nofun ?_
    rintro ⟨i, -, ⟨t, ht, -⟩, -⟩
    cases ht
  | cons t ts ih =>
    rw [matchClose]
    by_cases hkind : t.kind = kind
    · have hzero : 0 ∈ {i | ∃ u, (t :: ts)[i]? = some u ∧ u.kind = kind} := ⟨t, rfl, hkind⟩
      rw [if_pos hkind, if_pos (Nat.le_refl 1)]
      constructor
      · rintro ⟨⟩
        exact ⟨0, rfl, hzero, fun _ _ => Nat.zero_le _⟩
      · rintro ⟨i, rfl, -, hleast⟩
        rw [Nat.le_zero.mp (hleast hzero)]
    · have hzero : 0 ∉ {i | ∃ u, (t :: ts)[i]? = some u ∧ u.kind = kind} := by
        rintro ⟨u, hu, hukind⟩
        cases hu
        exact hkind hukind
      rw [if_neg hkind, if_neg hkind, Option.map_eq_some_iff]
      simp only [ih, isLeast_iff_exists_succ hzero (fun i => Iff.rfl)]
      constructor
      · rintro ⟨m, ⟨i, rfl, hi⟩, rfl⟩
        exact ⟨i + 1, rfl, i, rfl, hi⟩
      · rintro ⟨_, rfl, i, rfl, hi⟩
        exact ⟨i + 1, ⟨i, rfl, hi⟩, rfl⟩

/-! ## Blocks -/

theorem reachesCloser_cons_iff (hopen : t.kind = opener) :
    ReachesCloser opener closer (t :: ts) n ↔
      ∃ m, matchClose opener closer 1 ts = some m ∧ m + 1 = n := by
  rw [ReachesCloser]
  by_cases hsame : opener = closer
  · subst hsame
    have hzero : 0 ∉ laterNumbers opener (t :: ts) := fun h => Nat.lt_irrefl 0 h.1
    have hsucc : ∀ i, i + 1 ∈ laterNumbers opener (t :: ts) ↔
        i ∈ {i | ∃ u, ts[i]? = some u ∧ u.kind = opener} :=
      fun i => and_iff_right (Nat.succ_pos i)
    simp only [true_and, ne_eq, not_true_eq_false, false_and, or_false,
      isLeast_iff_exists_succ hzero hsucc, matchClose_same_eq_some_iff]
    constructor
    · rintro ⟨i, hn, hi⟩
      exact ⟨i + 1, ⟨i, rfl, hi⟩, by omega⟩
    · rintro ⟨_, ⟨i, rfl, hi⟩, rfl⟩
      exact ⟨i, rfl, hi⟩
  · have hzero : 0 ∉ balancedLengths opener closer (t :: ts) := fun h => Nat.lt_irrefl 0 h.1
    have hclose : ¬t.kind = closer := fun h => hsame (hopen.symm.trans h)
    have hsucc : ∀ m, m + 1 ∈ balancedLengths opener closer (t :: ts) ↔
        m ∈ closingLengths opener closer 1 ts := by
      intro m
      simp only [balancedLengths, closingLengths, Set.mem_ofPred_eq, List.length_cons,
        List.take_succ_cons, occurrences_cons, if_pos hopen, if_neg hclose]
      omega
    simp only [hsame, false_and, ne_eq, not_false_eq_true, true_and, false_or,
      isLeast_iff_exists_succ hzero hsucc,
      matchClose_eq_some_iff_isLeast hsame Nat.one_pos]
    exact exists_congr fun m => by rw [and_comm, eq_comm]

theorem matchBlock_eq_some_iff :
    matchBlock opener closer ts = some n ↔
      (∃ t ∈ ts.head?, t.kind = opener) ∧ ReachesCloser opener closer ts n := by
  cases ts with
  | nil => simp [matchBlock]
  | cons t ts =>
    rw [matchBlock]
    by_cases hopen : t.kind = opener
    · rw [if_pos hopen, Option.map_eq_some_iff, reachesCloser_cons_iff hopen]
      simp [hopen]
    · simp [hopen]

end

/-- A block is as long as the shortest balanced stretch from the front, or reaches to the next
token of the kind of both its ends. There is none if the first token does not open one or nothing
closes it. The count of open blocks, kept by a subtraction that fails below zero, never fails. -/
theorem matchBlock_shortest (opener closer : Kind) (ts : List Token) :
    (∀ n, matchBlock opener closer ts = some n ↔
      (∃ t ∈ ts.head?, t.kind = opener) ∧ ReachesCloser opener closer ts n) ∧
    (matchBlock opener closer ts = none ↔
      (¬∃ t ∈ ts.head?, t.kind = opener) ∨ ¬∃ n, ReachesCloser opener closer ts n) ∧
    Indexed.matchBlock opener closer ts = .ok (matchBlock opener closer ts) := by
  refine ⟨fun n => matchBlock_eq_some_iff, ?_, Indexed.matchBlock_refines opener closer ts⟩
  rw [Option.eq_none_iff_forall_ne_some, ← not_and_or, ← exists_and_left, ← not_exists, not_iff_not]
  exact exists_congr fun n => matchBlock_eq_some_iff

end Pattern

end CheckedScript
