import CheckedScript.Pattern

/-!
What a pattern covers. A match is stated on a list that is already cut into the tokens taken and
the tokens left, `Covers p span rest`, so that a sequence of patterns is a sequence of cuts. A
greedy repetition also says something about the rest: it could not go on there.

Main results:
* `matchLength_le`: a match stays within the tokens.
* `covers_sequence_cons`, `covers_zeroOrMore_exact`, `covers_block`: what each pattern covers.
-/

namespace CheckedScript

open Token (Kind)

namespace Pattern

/-- Every stretch from the front has at least as many openers as closers, and the whole has
equally many. -/
structure Balanced (opener closer : Kind) (kinds : List Kind) : Prop where
  front : ∀ front, front <+: kinds → front.count closer ≤ front.count opener
  whole : kinds.count opener = kinds.count closer

/-! ## Matches stay inside the list -/

theorem matchOne_le {p : Kind → Bool} {ts : List Token} {n : Nat} (h : matchOne p ts = some n) :
    n ≤ ts.length := by
  cases ts with
  | nil => simp [matchOne] at h
  | cons t ts =>
    simp only [matchOne] at h
    split at h
    · cases h; simp
    · cases h

theorem matchExact_eq (kinds : List Kind) (ts : List Token) :
    matchExact kinds ts = if kinds <+: ts.map (·.kind) then some kinds.length else none := by
  induction kinds generalizing ts with
  | nil => simp [matchExact]
  | cons kind kinds ih =>
    cases ts with
    | nil => simp [matchExact]
    | cons t ts =>
      rw [matchExact, ih]
      by_cases hkind : t.kind = kind
      · subst hkind
        rw [if_pos rfl]
        by_cases htail : kinds <+: ts.map (·.kind) <;> simp [htail]
      · have hne : ¬ kind = t.kind := fun h => hkind h.symm
        simp [hkind, hne]

theorem matchExact_le {kinds : List Kind} {ts : List Token} {n : Nat}
    (h : matchExact kinds ts = some n) : n ≤ ts.length := by
  rw [matchExact_eq] at h
  split at h
  · next hfront =>
    cases h
    simpa using hfront.length_le
  · cases h

theorem repetition_le {m : List Token → Option Nat}
    (hm : ∀ ts n, m ts = some n → n ≤ ts.length) (ts : List Token) :
    (repetition m ts).1 ≤ ts.length := by
  fun_induction repetition m ts with
  | case1 => simp
  | case2 t ts _ => simp
  | case3 t ts _ => simp
  | case4 t ts n hn length count heq ih =>
    have hbound := hm _ _ hn
    rw [heq] at ih
    simp only [List.length_cons, List.length_drop] at hbound ih ⊢
    omega

theorem matchClose_le {opener closer : Kind} {depth : Nat} {ts : List Token} {n : Nat}
    (h : matchClose opener closer depth ts = some n) : n ≤ ts.length := by
  induction ts generalizing depth n with
  | nil => simp [matchClose] at h
  | cons t ts ih =>
    have step : ∀ d, (matchClose opener closer d ts).map (· + 1) = some n →
        n ≤ (t :: ts).length := by
      intro d hd
      obtain ⟨m, hm, rfl⟩ := Option.map_eq_some_iff.mp hd
      have := ih hm
      simp only [List.length_cons]
      omega
    rw [matchClose] at h
    split at h
    · split at h
      · cases h; simp
      · exact step _ h
    · split at h <;> exact step _ h

theorem matchBlock_le {opener closer : Kind} {ts : List Token} {n : Nat}
    (h : matchBlock opener closer ts = some n) : n ≤ ts.length := by
  cases ts with
  | nil => simp [matchBlock] at h
  | cons t ts =>
    rw [matchBlock] at h
    split at h
    · obtain ⟨m, hm, rfl⟩ := Option.map_eq_some_iff.mp h
      have := matchClose_le hm
      simp only [List.length_cons]
      omega
    · cases h

mutual

/-- No pattern takes more tokens than there are. -/
theorem matchLength_le : ∀ (p : Pattern) (ts : List Token) (n : Nat),
    p.matchLength ts = some n → n ≤ ts.length
  | exact kinds, ts, n, h => by
    rw [matchLength] at h
    exact matchExact_le h
  | other kind, ts, n, h => by
    rw [matchLength] at h
    exact matchOne_le h
  | oneOf kinds, ts, n, h => by
    rw [matchLength] at h
    exact matchOne_le h
  | oneOrMore p, ts, n, h => by
    have hle := repetition_le (matchLength_le p) ts
    rw [matchLength] at h
    split at h
    · cases h
    · next heq =>
      cases h
      rw [heq] at hle
      exact hle
  | zeroOrMore p, ts, n, h => by
    rw [matchLength] at h
    cases h
    exact repetition_le (matchLength_le p) ts
  | sequence ps, ts, n, h => by
    rw [matchLength] at h
    exact matchSequence_le ps ts n h
  | block opener closer, ts, n, h => by
    rw [matchLength] at h
    exact matchBlock_le h

theorem matchSequence_le : ∀ (ps : List Pattern) (ts : List Token) (n : Nat),
    matchSequence ps ts = some n → n ≤ ts.length
  | [], ts, n, h => by
    rw [matchSequence] at h
    cases h
    exact Nat.zero_le _
  | p :: ps, ts, n, h => by
    rw [matchSequence] at h
    split at h
    · cases h
    · next m hm =>
      obtain ⟨k, hk, rfl⟩ := Option.map_eq_some_iff.mp h
      have h1 := matchLength_le p ts m hm
      have h2 := matchSequence_le ps _ k hk
      rw [List.length_drop] at h2
      omega

end

/-! ## Covering -/

/-- The pattern takes exactly `span` off the front of `span ++ rest`. -/
def Covers (p : Pattern) (span rest : List Token) : Prop :=
  p.matchLength (span ++ rest) = some span.length

theorem matchLength_eq_some_iff {p : Pattern} {ts : List Token} {n : Nat} :
    p.matchLength ts = some n ↔
      ∃ span rest, ts = span ++ rest ∧ span.length = n ∧ p.Covers span rest := by
  constructor
  · intro h
    have hle := matchLength_le p ts n h
    have hlen : (ts.take n).length = n := by simp [hle]
    refine ⟨ts.take n, ts.drop n, (List.take_append_drop n ts).symm, hlen, ?_⟩
    rw [Covers, List.take_append_drop, hlen]
    exact h
  · rintro ⟨span, rest, rfl, rfl, h⟩
    exact h

theorem covers_exact {kinds : List Kind} {span rest : List Token} :
    (exact kinds).Covers span rest ↔ span.map (·.kind) = kinds := by
  rw [Covers, matchLength, matchExact_eq, List.map_append]
  constructor
  · intro h
    split at h
    · next hfront =>
      have hlen : kinds.length = (span.map (·.kind)).length := by simpa using h
      have htake := List.prefix_iff_eq_take.mp hfront
      rw [hlen, List.take_left] at htake
      exact htake.symm
    · cases h
  · rintro rfl
    simp

theorem covers_sequence_nil {span rest : List Token} :
    (sequence []).Covers span rest ↔ span = [] := by
  rw [Covers, matchLength, matchSequence]
  simp [eq_comm, List.length_eq_zero_iff]

/-- A sequence covers one part after the other. -/
theorem covers_sequence_cons {p : Pattern} {ps : List Pattern} {span rest : List Token} :
    (sequence (p :: ps)).Covers span rest ↔
      ∃ u v, span = u ++ v ∧ p.Covers u (v ++ rest) ∧ (sequence ps).Covers v rest := by
  constructor
  · intro h
    rw [Covers, matchLength, matchSequence] at h
    split at h
    · cases h
    · next n hn =>
      obtain ⟨k, hk, hsum⟩ := Option.map_eq_some_iff.mp h
      have hlen : n ≤ span.length := by omega
      have hu : (span.take n).length = n := by simp [hlen]
      have hv : (span.drop n).length = k := by rw [List.length_drop]; omega
      refine ⟨span.take n, span.drop n, (List.take_append_drop n span).symm, ?_, ?_⟩
      · rw [Covers, ← List.append_assoc, List.take_append_drop, hu]
        exact hn
      · rw [Covers, matchLength, hv, ← List.drop_append_of_le_length hlen]
        exact hk
  · rintro ⟨u, v, rfl, hu, hv⟩
    rw [Covers, List.append_assoc, matchLength, matchSequence, hu]
    rw [Covers, matchLength] at hv
    simp only [List.drop_left, hv, Option.map_some, List.length_append]

/-! ## Repetitions -/

theorem matchExact_singleton (kind : Kind) : matchExact [kind] = matchOne (· = kind) := by
  funext ts
  cases ts with
  | nil => rfl
  | cons t ts => simp [matchExact, matchOne]

theorem repetition_matchOne (q : Kind → Bool) (ts : List Token) :
    (repetition (matchOne q) ts).1 = (ts.takeWhile fun t => q t.kind).length := by
  induction ts with
  | nil => simp [repetition]
  | cons t ts ih =>
    rw [repetition]
    by_cases hq : q t.kind <;> simp [matchOne, hq, ih, Nat.add_comm]

theorem length_takeWhile_append {q : Kind → Bool} {span rest : List Token} :
    ((span ++ rest).takeWhile fun t => q t.kind).length = span.length ↔
      (∀ t ∈ span, q t.kind) ∧ ∀ t ∈ rest.head?, ¬ q t.kind := by
  induction span with
  | nil => cases rest <;> simp [List.takeWhile_cons]
  | cons t span ih =>
    by_cases hq : q t.kind
    · simpa [hq] using ih
    · simp [hq]

theorem covers_one {p : Pattern} {q : Kind → Bool} (hp : p.matchLength = matchOne q)
    {span rest : List Token} : p.Covers span rest ↔ ∃ t, span = [t] ∧ q t.kind := by
  rw [Covers, hp]
  rcases span with _ | ⟨t, _ | ⟨t', span⟩⟩
  · cases rest <;> simp [matchOne]
  · simp [matchOne]
  · simp [matchOne]

/-- A repeated test of single tokens stops at the first token that fails it. -/
theorem covers_zeroOrMore_one {p : Pattern} {q : Kind → Bool} (hp : p.matchLength = matchOne q)
    {span rest : List Token} :
    (zeroOrMore p).Covers span rest ↔
      (∀ t ∈ span, q t.kind) ∧ ∀ t ∈ rest.head?, ¬ q t.kind := by
  rw [Covers, matchLength, hp, repetition_matchOne, Option.some_inj]
  exact length_takeWhile_append

/-- Copies of `kinds` are taken as long as there is one more. -/
theorem repetition_exact {kinds : List Kind} (hne : kinds ≠ []) (ts : List Token) :
    ∃ k span rest, ts = span ++ rest ∧ span.map (·.kind) = (List.replicate k kinds).flatten ∧
      ¬ kinds <+: rest.map (·.kind) ∧ (repetition (matchExact kinds) ts).1 = span.length := by
  fun_induction repetition (matchExact kinds) ts with
  | case1 => exact ⟨0, [], [], by simp [hne]⟩
  | case2 t ts hnone =>
    refine ⟨0, [], t :: ts, rfl, rfl, fun hfront => ?_, rfl⟩
    rw [matchExact_eq, if_pos hfront] at hnone
    cases hnone
  | case3 t ts hzero =>
    rw [matchExact_eq] at hzero
    split at hzero
    · exact absurd (List.length_eq_zero_iff.mp (Option.some_inj.mp hzero)) hne
    · cases hzero
  | case4 t ts n hn length count heq ih =>
    obtain ⟨k, span, rest, hts, hspan, hrest, hlen⟩ := ih
    rw [matchExact_eq] at hn
    split at hn
    · next hfront =>
      have hn' : kinds.length = n + 1 := Option.some_inj.mp hn
      have hcut : ts.take n ++ (span ++ rest) = ts := by rw [← hts, List.take_append_drop]
      have hkinds : kinds = t.kind :: (ts.take n).map (·.kind) := by
        have := List.prefix_iff_eq_take.mp hfront
        rw [hn'] at this
        simpa [List.map_take] using this
      have htake : (ts.take n).length = n := by
        have := congrArg List.length hkinds
        simp only [List.length_cons, List.length_map] at this
        omega
      refine ⟨k + 1, t :: ts.take n ++ span, rest, ?_, ?_, hrest, ?_⟩
      · rw [List.append_assoc, List.cons_append, hcut]
      · rw [List.map_append, hspan, List.replicate_succ, List.flatten_cons, List.map_cons,
          ← hkinds]
      · rw [heq] at hlen
        simp only [List.cons_append, List.length_cons, List.length_append, htake]
        omega
    · cases hn

theorem repetition_exact_append {kinds : List Kind} (hne : kinds ≠ []) {rest : List Token}
    (hrest : ¬ kinds <+: rest.map (·.kind)) (k : Nat) (span : List Token)
    (hspan : span.map (·.kind) = (List.replicate k kinds).flatten) :
    (repetition (matchExact kinds) (span ++ rest)).1 = span.length := by
  induction k generalizing span with
  | zero =>
    have : span = [] := by simpa using hspan
    subst this
    cases rest with
    | nil => simp [repetition]
    | cons t ts => rw [List.nil_append, repetition, matchExact_eq, if_neg hrest]; rfl
  | succ k ih =>
    rw [List.replicate_succ, List.flatten_cons] at hspan
    obtain ⟨u, v, rfl, hu, hv⟩ := List.map_eq_append_iff.mp hspan
    cases u with
    | nil => exact absurd hu.symm hne
    | cons t u =>
      have hlen : kinds.length = u.length + 1 := by rw [← hu]; simp
      have hfront : kinds <+: (t :: (u ++ (v ++ rest))).map (·.kind) := by
        rw [← hu]; simp
      rw [List.append_assoc, List.cons_append, repetition, matchExact_eq, if_pos hfront, hlen]
      simp only [List.drop_left, ih v hv, List.length_append, List.length_cons]

/-- A repeated run of kinds stops where no full run follows. -/
theorem covers_zeroOrMore_exact {kinds : List Kind} (hne : kinds ≠ []) {span rest : List Token} :
    (zeroOrMore (exact kinds)).Covers span rest ↔
      (∃ k, span.map (·.kind) = (List.replicate k kinds).flatten) ∧
        ¬ kinds <+: rest.map (·.kind) := by
  have hp : (exact kinds).matchLength = matchExact kinds := by funext ts; rw [matchLength]
  rw [Covers, matchLength, hp, Option.some_inj]
  constructor
  · intro h
    obtain ⟨k, u, v, hcut, hu, hv, hlen⟩ := repetition_exact hne (span ++ rest)
    obtain ⟨rfl, rfl⟩ := List.append_inj hcut (h.symm.trans hlen)
    exact ⟨⟨k, hu⟩, hv⟩
  · rintro ⟨⟨k, hspan⟩, hrest⟩
    exact repetition_exact_append hne hrest k span hspan

/-! ## Blocks -/

/-- What stands before the closer of the outermost of `depth` open blocks. -/
structure Encloses (opener closer : Kind) (depth : Nat) (kinds : List Kind) : Prop where
  front : ∀ front, front <+: kinds → front.count closer < front.count opener + depth
  whole : kinds.count closer + 1 = kinds.count opener + depth

theorem encloses_one_iff {opener closer : Kind} {kinds : List Kind} :
    Encloses opener closer 1 kinds ↔ Balanced opener closer kinds := by
  constructor
  · intro h
    exact ⟨fun front hfront => Nat.le_of_lt_succ (h.front front hfront), by have := h.whole; omega⟩
  · intro h
    exact ⟨fun front hfront => Nat.lt_succ_of_le (h.front front hfront), by have := h.whole; omega⟩

theorem encloses_nil_iff {opener closer : Kind} {depth : Nat} :
    Encloses opener closer depth [] ↔ depth = 1 := by
  constructor
  · intro h
    have := h.whole
    simp only [List.count_nil] at this
    omega
  · rintro rfl
    refine ⟨fun front hfront => ?_, by simp⟩
    rw [List.prefix_nil.mp hfront]
    simp

/-- One token on, the depth has changed by what the token opens or closes. -/
theorem encloses_cons_iff {opener closer kind : Kind} {depth depth' : Nat} {kinds : List Kind}
    (hdepth : 0 < depth)
    (hstep : [kind].count closer + depth' = [kind].count opener + depth) :
    Encloses opener closer depth (kind :: kinds) ↔ Encloses opener closer depth' kinds := by
  have hcount : ∀ (k : Kind) (ks : List Kind), (kind :: ks).count k = [kind].count k + ks.count k :=
    fun k ks => by rw [← List.count_append, List.singleton_append]
  constructor
  · intro h
    refine ⟨fun front hfront => ?_, ?_⟩
    · have := h.front (kind :: front) (by simpa using hfront)
      rw [hcount closer front, hcount opener front] at this
      omega
    · have := h.whole
      rw [hcount closer kinds, hcount opener kinds] at this
      omega
  · intro h
    refine ⟨fun front hfront => ?_, ?_⟩
    · rcases List.prefix_cons_iff.mp hfront with rfl | ⟨tail, rfl, htail⟩
      · simpa using hdepth
      · have := h.front tail htail
        rw [hcount closer tail, hcount opener tail]
        omega
    · have := h.whole
      rw [hcount closer kinds, hcount opener kinds]
      omega

theorem not_encloses_zero {opener closer : Kind} {kinds : List Kind} :
    ¬ Encloses opener closer 0 kinds := by
  intro h
  have := h.front [] (List.nil_prefix)
  simp at this

theorem matchClose_eq_some_iff {opener closer : Kind} (hne : opener ≠ closer) {depth : Nat}
    (hdepth : 0 < depth) {ts : List Token} {n : Nat} :
    matchClose opener closer depth ts = some n ↔
      ∃ body last rest, ts = body ++ last :: rest ∧ last.kind = closer ∧ n = body.length + 1 ∧
        Encloses opener closer depth (body.map (·.kind)) := by
  induction ts generalizing depth n with
  | nil => simp [matchClose]
  | cons t ts ih =>
    -- A closer of the outermost block ends the match; any other token becomes part of the body.
    have later : ∀ depth', 0 < depth' →
        [t.kind].count closer + depth' = [t.kind].count opener + depth →
        (t.kind = closer → depth ≠ 1) →
        ((matchClose opener closer depth' ts).map (· + 1) = some n ↔
          ∃ body last rest, t :: ts = body ++ last :: rest ∧ last.kind = closer ∧
            n = body.length + 1 ∧ Encloses opener closer depth (body.map (·.kind))) := by
      intro depth' hdepth' hstep hlast
      constructor
      · intro h
        obtain ⟨m, hm, rfl⟩ := Option.map_eq_some_iff.mp h
        obtain ⟨body, last, rest, rfl, hkind, rfl, hin⟩ := (ih hdepth').mp hm
        exact ⟨t :: body, last, rest, rfl, hkind, rfl, (encloses_cons_iff hdepth hstep).mpr hin⟩
      · rintro ⟨body, last, rest, hts, hkind, rfl, hin⟩
        cases body with
        | nil =>
          cases hts
          exact absurd (encloses_nil_iff.mp hin) (hlast hkind)
        | cons u body =>
          cases hts
          rw [(ih hdepth').mpr ⟨body, last, rest, rfl, hkind, rfl,
            (encloses_cons_iff hdepth hstep).mp hin⟩]
          rfl
    rw [matchClose]
    split
    · next hclose =>
      split
      · have hone : depth = 1 := by omega
        subst hone
        constructor
        · intro h
          cases h
          exact ⟨[], t, ts, rfl, hclose, rfl, encloses_nil_iff.mpr rfl⟩
        · rintro ⟨body, last, rest, hts, hkind, rfl, hin⟩
          cases body with
          | nil => rfl
          | cons u body =>
            cases hts
            have hstep : [t.kind].count closer + 0 = [t.kind].count opener + 1 := by
              simp [hclose, hne.symm]
            exact absurd ((encloses_cons_iff hdepth hstep).mp hin) not_encloses_zero
      · exact later (depth - 1) (by omega) (by simp [hclose, hne.symm]; omega) (by omega)
    · next hclose =>
      split
      · next hopen =>
        exact later (depth + 1) (by omega) (by simp [hopen, hne]; omega)
          (fun h => absurd h hclose)
      · next hopen =>
        exact later depth hdepth (by simp [hopen, hclose]) (fun h => absurd h hclose)

/-- A block is a balanced stretch between its opener and its closer. -/
theorem covers_block {opener closer : Kind} (hne : opener ≠ closer) {span rest : List Token} :
    (block opener closer).Covers span rest ↔
      ∃ first body last, span = first :: (body ++ [last]) ∧ first.kind = opener ∧
        last.kind = closer ∧ Balanced opener closer (body.map (·.kind)) := by
  rw [Covers, matchLength]
  constructor
  · intro h
    cases span with
    | nil =>
      cases rest with
      | nil => simp [matchBlock] at h
      | cons t ts =>
        rw [List.nil_append, matchBlock] at h
        split at h
        · obtain ⟨m, _, hm⟩ := Option.map_eq_some_iff.mp h
          cases hm
        · cases h
    | cons t span =>
      rw [List.cons_append, matchBlock] at h
      split at h
      · next hopen =>
        obtain ⟨m, hm, hlen⟩ := Option.map_eq_some_iff.mp h
        obtain ⟨body, last, tail, hcut, hclose, rfl, hin⟩ :=
          (matchClose_eq_some_iff hne Nat.one_pos).mp hm
        have hcut' : span ++ rest = (body ++ [last]) ++ tail := by simpa using hcut
        have hlen' : span.length = (body ++ [last]).length := by
          simp only [List.length_cons] at hlen
          simp only [List.length_append, List.length_singleton]
          omega
        obtain ⟨rfl, rfl⟩ := List.append_inj hcut' hlen'
        exact ⟨t, body, last, rfl, hopen, hclose, encloses_one_iff.mp hin⟩
      · cases h
  · rintro ⟨first, body, last, rfl, hopen, hclose, hin⟩
    have hmatch : matchClose opener closer 1 (body ++ last :: rest) = some (body.length + 1) :=
      (matchClose_eq_some_iff hne Nat.one_pos).mpr
        ⟨body, last, rest, rfl, hclose, rfl, encloses_one_iff.mpr hin⟩
    simp [matchBlock, hopen, hmatch]

end Pattern

end CheckedScript
