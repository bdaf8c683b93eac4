import CheckedScript.Proofs.Layout

/-!
Which line ends become semicolons. The pass reads on behind the kind of the last token that is no
blank, and its own semicolons count there. Said without that memory: a line end is replaced if,
spaces aside, it directly follows a token behind which a statement can end.

Main result:
* `Token.endStatements_exact`: what the pass replaces, and that it has nothing to do twice.
-/

namespace CheckedScript.Token

/-- The kinds of tokens behind which a line end does not end the statement. -/
def continuing : List Kind :=
  [.openBrace, .stringLiteralMarker, .openParen, .openSquare, .comma, .semicolon]

theorem continues_iff {kind : Kind} : kind.continues = true ↔ kind ∈ continuing := by
  cases kind <;> decide

/-- Token `i` is a line end with only spaces between it and an earlier token `j`, which is no
blank and behind which a statement can end. -/
structure EndsStatement (ts : List Token) (i : Nat) : Prop where
  line : ∃ t, ts[i]? = some t ∧ t.kind = .newLine
  behind : ∃ j u, j < i ∧ ts[j]? = some u ∧ u.kind ≠ .whitespace ∧ u.kind ≠ .newLine ∧
    u.kind ∉ continuing ∧ ∀ k v, j < k → k < i → ts[k]? = some v → v.kind = .whitespace

/-! ## The statement before a token -/

/-- Spaces aside, the tokens end in one behind which a statement can end. -/
def Unfinished (ts : List Token) : Prop :=
  ∃ front u spaces, ts = front ++ u :: spaces ∧ ¬u.kind.isBlank = true ∧
    ¬u.kind.continues = true ∧ ∀ t ∈ spaces, t.kind = .whitespace

theorem not_unfinished_nil : ¬Unfinished [] := by
  rintro ⟨front, u, spaces, h, -⟩
  exact List.cons_ne_nil u spaces (List.append_eq_nil_iff.mp h.symm).2

/-- The last token is a space, or it is what counts. -/
theorem unfinished_concat {ts : List Token} {t : Token} :
    Unfinished (ts ++ [t]) ↔
      t.kind = .whitespace ∧ Unfinished ts ∨
        ¬t.kind.isBlank = true ∧ ¬t.kind.continues = true := by
  constructor
  · rintro ⟨front, u, spaces, h, hblank, hcontinues, hspaces⟩
    obtain rfl | ⟨spaces, t', rfl⟩ := List.eq_nil_or_concat' spaces
    · obtain ⟨-, heq⟩ := List.append_inj' h rfl
      obtain ⟨rfl, -⟩ := List.cons.inj heq
      exact .inr ⟨hblank, hcontinues⟩
    · rw [← List.cons_append, ← List.append_assoc] at h
      obtain ⟨rfl, heq⟩ := List.append_inj' h rfl
      obtain ⟨rfl, -⟩ := List.cons.inj heq
      exact .inl ⟨hspaces t (by simp), front, u, spaces, rfl, hblank, hcontinues,
        fun s hs => hspaces s (by simp [hs])⟩
  · rintro (⟨hspace, front, u, spaces, rfl, hblank, hcontinues, hspaces⟩ | ⟨hblank, hcontinues⟩)
    · refine ⟨front, u, spaces ++ [t], by simp, hblank, hcontinues, ?_⟩
      intro s hs
      obtain hs | hs := List.mem_append.mp hs
      · exact hspaces s hs
      · rw [List.mem_singleton.mp hs, hspace]
    · exact ⟨ts, t, [], rfl, hblank, hcontinues, by simp⟩

/-- What the pass remembers, read off the tokens before. A line end leaves it such that no other
line end is replaced before the next token that is no blank. -/
theorem settled_continues_iff (ts : List Token) :
    (settled none ts).all Kind.continues = true ↔ ¬Unfinished ts := by
  induction ts using List.reverseRecOn with
  | nil => exact iff_of_true rfl not_unfinished_nil
  | append_singleton ts t ih =>
    rw [settled_append_cons, unfinished_concat]
    show (settle (settled none ts) t.kind).all Kind.continues = true ↔ _
    by_cases hblank : t.kind.isBlank = true
    · obtain hspace | hline := (Kind.isBlank_iff).mp hblank
      · simpa [settle, hspace, Kind.isBlank] using ih
      · rw [hline, settle]
        refine iff_of_true ?_ (by simp [Kind.isBlank])
        split
        · assumption
        · rfl
    · have hspace : t.kind ≠ .whitespace := fun h => hblank (by rw [h]; rfl)
      rw [settle_of_not_blank hblank]
      simp [hspace, hblank]

/-- The same by numbers of tokens. -/
theorem unfinished_take_iff {ts : List Token} {i : Nat} (hi : i < ts.length) :
    Unfinished (ts.take i) ↔
      ∃ j u, j < i ∧ ts[j]? = some u ∧ u.kind ≠ .whitespace ∧ u.kind ≠ .newLine ∧
        u.kind ∉ continuing ∧ ∀ k v, j < k → k < i → ts[k]? = some v → v.kind = .whitespace := by
  constructor
  · rintro ⟨front, u, spaces, htake, hblank, hcontinues, hspaces⟩
    have hlength : front.length + (spaces.length + 1) = i := by
      have := congrArg List.length htake
      simp only [List.length_take, List.length_append, List.length_cons] at this
      omega
    have hget : ∀ k < i, ts[k]? = (front ++ u :: spaces)[k]? := by
      intro k hk
      rw [← htake, List.getElem?_take_of_lt hk]
    rw [Kind.isBlank_iff, not_or] at hblank
    refine ⟨front.length, u, by omega, ?_, hblank.1, hblank.2,
      fun h => hcontinues (continues_iff.mpr h), ?_⟩
    · rw [hget _ (by omega), List.getElem?_append_right (Nat.le_refl _), Nat.sub_self]
      rfl
    · intro k v hjk hki hv
      obtain ⟨m, rfl⟩ := Nat.exists_eq_add_of_lt hjk
      rw [hget _ hki, Nat.add_assoc, List.getElem?_append_right (Nat.le_add_right _ _),
        Nat.add_sub_cancel_left, List.getElem?_cons_succ] at hv
      exact hspaces v (List.mem_of_getElem? hv)
  · rintro ⟨j, u, hji, hu, hspace, hline, hcontinues, hspaces⟩
    obtain ⟨hj, rfl⟩ := List.getElem?_eq_some_iff.mp hu
    refine ⟨ts.take j, ts[j], (ts.take i).drop (j + 1), ?_, ?_, ?_, ?_⟩
    · have hcut := List.take_append_drop j (ts.take i)
      rw [List.take_take, Nat.min_eq_left (Nat.le_of_lt hji),
        List.drop_eq_getElem_cons (by simp; omega), List.getElem_take] at hcut
      exact hcut.symm
    · rw [Kind.isBlank_iff, not_or]
      exact ⟨hspace, hline⟩
    · exact fun h => hcontinues (continues_iff.mp h)
    · intro t ht
      obtain ⟨m, ht⟩ := List.mem_iff_getElem?.mp ht
      rw [List.getElem?_drop] at ht
      have hm : j + 1 + m < i := by
        have := (List.getElem?_eq_some_iff.mp ht).1
        simp only [List.length_take] at this
        omega
      rw [List.getElem?_take_of_lt hm] at ht
      exact hspaces _ t (by omega) hm ht

/-! ## What becomes of each token -/

theorem getElem?_endStatementsAfter (previous : Option Kind) (ts : List Token) (i : Nat) :
    (endStatementsAfter previous ts)[i]? = ts[i]?.map (ended (settled previous (ts.take i))) := by
  induction ts generalizing previous i with
  | nil => rfl
  | cons t ts ih =>
    rw [endStatementsAfter_cons]
    cases i with
    | zero => rfl
    | succ i =>
      rw [List.getElem?_cons_succ, List.getElem?_cons_succ, ih, List.take_succ_cons]
      rfl

theorem length_endStatementsAfter (previous : Option Kind) (ts : List Token) :
    (endStatementsAfter previous ts).length = ts.length := by
  induction ts generalizing previous with
  | nil => rfl
  | cons t ts ih => rw [endStatementsAfter_cons, List.length_cons, List.length_cons, ih]

theorem endsStatement_iff {ts : List Token} {i : Nat} {t : Token} (h : ts[i]? = some t) :
    EndsStatement ts i ↔
      t.kind = .newLine ∧ ¬(settled none (ts.take i)).all Kind.continues = true := by
  have hi : i < ts.length := (List.getElem?_eq_some_iff.mp h).1
  rw [settled_continues_iff, not_not, unfinished_take_iff hi]
  constructor
  · rintro ⟨⟨t', ht', hline⟩, hbehind⟩
    cases h.symm.trans ht'
    exact ⟨hline, hbehind⟩
  · rintro ⟨hline, hbehind⟩
    exact ⟨⟨t, h, hline⟩, hbehind⟩

theorem getElem?_endStatements_of_ends {ts : List Token} {i : Nat} (h : EndsStatement ts i) :
    (endStatements ts)[i]? = ts[i]?.map fun t => ⟨.semicolon, ";", t.position⟩ := by
  obtain ⟨t, ht, -⟩ := h.line
  rw [endStatements, getElem?_endStatementsAfter, ht, Option.map_some, Option.map_some, ended,
    if_pos ((endsStatement_iff ht).mp h)]

theorem getElem?_endStatements_of_not {ts : List Token} {i : Nat} (h : ¬EndsStatement ts i) :
    (endStatements ts)[i]? = ts[i]? := by
  rw [endStatements, getElem?_endStatementsAfter]
  cases ht : ts[i]? with
  | none => rfl
  | some t =>
    rw [Option.map_some, ended, if_neg]
    exact fun hends => h ((endsStatement_iff ht).mpr hends)

theorem getElem?_endStatements_ne_iff {ts : List Token} {i : Nat} :
    (endStatements ts)[i]? ≠ ts[i]? ↔ EndsStatement ts i := by
  constructor
  · exact fun hne => not_not.mp fun h => hne (getElem?_endStatements_of_not h)
  · intro h heq
    obtain ⟨t, ht, hline⟩ := h.line
    rw [getElem?_endStatements_of_ends h, ht, Option.map_some, Option.some_inj] at heq
    have hkind : t.kind = .semicolon := by rw [← heq]
    rw [hline] at hkind
    cases hkind

/-- Line ends that both end a statement end different ones. -/
theorem EndsStatement.exists_between {ts : List Token} {i j : Nat} (hi : EndsStatement ts i)
    (hj : EndsStatement ts j) (hij : i < j) :
    ∃ k t, i < k ∧ k < j ∧ ts[k]? = some t ∧ t.kind ≠ .whitespace ∧ t.kind ≠ .newLine := by
  obtain ⟨t, ht, hline⟩ := hi.line
  obtain ⟨k, u, hkj, hu, hspace, hnewLine, -, hspaces⟩ := hj.behind
  refine ⟨k, u, Nat.lt_of_not_le fun hki => ?_, hkj, hu, hspace, hnewLine⟩
  obtain rfl | hki := Nat.eq_or_lt_of_le hki
  · cases ht.symm.trans hu
    exact hnewLine hline
  · have := hspaces i t hki hij ht
    rw [hline] at this
    cases this

/-! ## A second pass -/

theorem ended_ended (previous : Option Kind) (t : Token) :
    ended previous (ended previous t) = ended previous t := by
  by_cases h : t.kind = .newLine ∧ ¬previous.all Kind.continues = true
  · rw [ended, ended, if_pos h, if_neg fun h' => by cases h'.1]
  · rw [ended, ended, if_neg h, if_neg h]

/-- A semicolon that was put in counts as the line end did. -/
theorem settle_kind_ended (previous : Option Kind) (t : Token) :
    settle previous (ended previous t).kind = settle previous t.kind := by
  by_cases h : t.kind = .newLine ∧ ¬previous.all Kind.continues = true
  · rw [ended, if_pos h, h.1]
    exact (if_neg h.2).symm
  · rw [ended, if_neg h]

theorem endStatementsAfter_idem (previous : Option Kind) (ts : List Token) :
    endStatementsAfter previous (endStatementsAfter previous ts) =
      endStatementsAfter previous ts := by
  induction ts generalizing previous with
  | nil => rfl
  | cons t ts ih =>
    rw [endStatementsAfter_cons, endStatementsAfter_cons, ended_ended, settle_kind_ended, ih]

/-- The pass keeps the number of tokens and replaces exactly the line ends that end a statement,
each by a semicolon at its place. Two of them have a token that is no blank between them, and a
second pass finds nothing to do. -/
theorem endStatements_exact (ts : List Token) :
    (endStatements ts).length = ts.length ∧
    (∀ i, (endStatements ts)[i]? ≠ ts[i]? ↔ EndsStatement ts i) ∧
    (∀ i, EndsStatement ts i →
      (endStatements ts)[i]? = ts[i]?.map fun t => ⟨.semicolon, ";", t.position⟩) ∧
    (∀ i j : Nat, i < j → (endStatements ts)[i]? ≠ ts[i]? → (endStatements ts)[j]? ≠ ts[j]? →
      ∃ (k : Nat) (t : Token), i < k ∧ k < j ∧ ts[k]? = some t ∧ t.kind ≠ .whitespace ∧
        t.kind ≠ .newLine) ∧
    endStatements (endStatements ts) = endStatements ts := by
  refine ⟨length_endStatementsAfter none ts, fun i => getElem?_endStatements_ne_iff,
    fun i h => getElem?_endStatements_of_ends h, ?_, endStatementsAfter_idem none ts⟩
  intro i j hij hi hj
  exact (getElem?_endStatements_ne_iff.mp hi).exists_between
    (getElem?_endStatements_ne_iff.mp hj) hij

end CheckedScript.Token
