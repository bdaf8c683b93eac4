import CheckedScript.Proofs.Layout

/-!
Literals and comments among the tokens. The text between two quotes becomes one token wherever it
stands, or part of the comment that it stands in, and around such a token the later passes work as
if nothing else than its kind were known.

Main results:
* `group_comment`: a mark and the rest of its line become one comment.
* `layOut_around`: what the later passes make of the tokens on both sides.
-/

namespace CheckedScript.Token

/-! ## Pieces -/

/-- Tokens of one kind that is spelled by one character only come from that character. -/
theorem kind_ne_of_not_mem {c : Char} {kind : Kind}
    (hkind : ∀ piece, (bare piece).kind = kind → piece = [c]) {cs : List Char} (h : c ∉ cs) :
    ∀ t ∈ (Fragment.split cs).map bare, t.kind ≠ kind := by
  intro t ht heq
  obtain ⟨piece, hpiece, rfl⟩ := List.mem_map.mp ht
  have hmem : c ∈ (Fragment.split cs).flatten :=
    List.mem_flatten.mpr ⟨piece, hpiece, by rw [hkind piece heq]; exact List.mem_singleton_self c⟩
  rw [Fragment.split_flatten] at hmem
  exact h hmem

theorem kind_ne_quote {cs : List Char} (h : '"' ∉ cs) :
    ∀ t ∈ (Fragment.split cs).map bare, t.kind ≠ .stringLiteralMarker :=
  kind_ne_of_not_mem (fun _ => kind_bare_quote.mp) h

theorem kind_ne_lineEnd {cs : List Char} (h : '\n' ∉ cs) :
    ∀ t ∈ (Fragment.split cs).map bare, t.kind ≠ .newLine :=
  kind_ne_of_not_mem (fun _ => kind_bare_lineEnd.mp) h

/-- The pieces of a text, made one token again. -/
theorem merge_bare (kind : Kind) (cs : List Char) {mark : Token} (hmark : mark.position = {}) :
    merge kind ((Fragment.split cs).map bare) mark = ⟨kind, String.ofList cs, {}⟩ := by
  have htext : String.join (((Fragment.split cs).map bare).map (·.text)) = String.ofList cs := by
    rw [← String.toList_inj, String.toList_join, String.toList_ofList, List.flatMap_map,
      List.flatMap_map]
    simp only [bare, ofFragment, String.toList_ofList]
    rw [List.flatMap_id', Fragment.split_flatten]
  have hposition : ((((Fragment.split cs).map bare).head?).getD mark).position = {} := by
    cases Fragment.split cs with
    | nil => exact hmark
    | cons piece pieces => rfl
  rw [merge, htext, hposition]

/-- Behind evenly many quotes none is open. -/
theorem quoted_of_even {cs : List Char} (h : Even (cs.count '"')) :
    (Region.along {} ((Fragment.split cs).map bare)).quoted = false := by
  have hbodd : (cs.count '"').bodd = false := by
    have hmod := Nat.mod_two_of_bodd (cs.count '"')
    rw [Nat.even_iff.mp h] at hmod
    cases hodd : (cs.count '"').bodd with
    | false => rfl
    | true => rw [hodd] at hmod; cases hmod
  rw [Region.along_split, Region.quoted_foldl_step, hbodd]
  rfl

/-- Where no quote is open, there is code or a comment. -/
theorem along_of_not_quoted {ts : List Token} (h : (Region.along {} ts).quoted = false) :
    Region.along {} ts = {} ∨ Region.along {} ts = ⟨false, true⟩ := by
  generalize Region.along {} ts = region at h ⊢
  obtain ⟨quoted, commented⟩ := region
  obtain rfl : quoted = false := h
  cases commented with
  | false => exact .inl rfl
  | true => exact .inr rfl

theorem head?_split_lineEnd {cs : List Char} (h : ∀ c ∈ cs.head?, c = '\n') :
    ∀ t ∈ ((Fragment.split cs).map bare).head?, t.kind = .newLine := by
  cases cs with
  | nil => nofun
  | cons c cs =>
    have hseparator : isSeparator '\n' = true := by decide
    obtain rfl := h c rfl
    rw [Fragment.split, Fragment.attach_separator hseparator]
    rintro t ⟨⟩
    exact kind_bare_lineEnd.mpr rfl

/-! ## Literals -/

/-- What stands between quotes becomes one literal. -/
theorem joinStringsFrom_literal {mark close : Token} {parts inside : List Token}
    (hinside : ∀ t ∈ inside, t.kind ≠ .stringLiteralMarker)
    (hclose : close.kind = .stringLiteralMarker) (us : List Token) :
    joinStringsFrom (some mark) parts (inside ++ close :: us) =
      (joinStrings us).map (merge .stringLiteral (parts.reverse ++ inside) mark :: ·) := by
  induction inside generalizing parts with
  | nil =>
    rw [List.nil_append, joinStringsFrom, if_pos hclose, List.append_nil]
    rfl
  | cons t inside ih =>
    obtain ⟨ht, hinside⟩ := List.forall_mem_cons.mp hinside
    rw [List.cons_append, joinStringsFrom, if_neg ht, ih hinside, List.reverse_cons,
      List.append_assoc, List.singleton_append]

theorem joinStrings_literal {mark close : Token} {inside : List Token}
    (hmark : mark.kind = .stringLiteralMarker)
    (hinside : ∀ t ∈ inside, t.kind ≠ .stringLiteralMarker)
    (hclose : close.kind = .stringLiteralMarker) (us : List Token) :
    joinStrings (mark :: (inside ++ close :: us)) =
      (joinStrings us).map (merge .stringLiteral inside mark :: ·) := by
  rw [joinStrings, joinStringsFrom, if_pos hmark, joinStringsFrom_literal hinside hclose]
  rfl

theorem group_literal {mark close : Token} {inside : List Token}
    (hmark : mark.kind = .stringLiteralMarker)
    (hinside : ∀ t ∈ inside, t.kind ≠ .stringLiteralMarker)
    (hclose : close.kind = .stringLiteralMarker) (us : List Token) :
    group (mark :: (inside ++ close :: us)) =
      (group us).map (merge .stringLiteral inside mark :: ·) := by
  rw [group, group, joinStrings_literal hmark hinside hclose]
  cases joinStrings us <;> rfl

theorem joinStrings_of_ne {ts : List Token} (h : ∀ t ∈ ts, t.kind ≠ .stringLiteralMarker) :
    joinStrings ts = .ok ts := by
  induction ts with
  | nil => rfl
  | cons t ts ih =>
    obtain ⟨ht, hts⟩ := List.forall_mem_cons.mp h
    rw [joinStrings, joinStringsFrom, if_neg ht, joinStringsFrom_none, ih hts]
    rfl

/-! ## Comments -/

/-- A comment reaches up to the end of its line. -/
theorem joinCommentsFrom_rest {mark : Token} {parts inside us : List Token}
    (hinside : ∀ t ∈ inside, t.kind ≠ .newLine) (hus : ∀ t ∈ us.head?, t.kind = .newLine) :
    joinCommentsFrom (some mark) parts (inside ++ us) =
      merge .comment (parts.reverse ++ inside) mark :: joinComments us := by
  induction inside generalizing parts with
  | nil =>
    rw [List.nil_append, List.append_nil]
    cases us with
    | nil => rfl
    | cons t us =>
      have ht : t.kind = .newLine := hus t rfl
      rw [joinCommentsFrom, if_pos ht, joinComments, joinCommentsFrom, if_neg (by simp [ht])]
  | cons t inside ih =>
    obtain ⟨ht, hinside⟩ := List.forall_mem_cons.mp hinside
    rw [List.cons_append, joinCommentsFrom, if_neg ht, ih hinside, List.reverse_cons,
      List.append_assoc, List.singleton_append]

/-- Behind tokens that leave a comment open, it goes on. -/
theorem joinCommentsFrom_open {mark : Option Token} {parts ts : List Token}
    (h : inComment mark.isSome ts = true) :
    ∃ front mark' parts', ∀ us, joinCommentsFrom mark parts (ts ++ us) =
      front ++ joinCommentsFrom (some mark') parts' us := by
  fun_induction joinCommentsFrom mark parts ts with
  | case1 => cases h
  | case2 parts mark => exact ⟨[], mark, parts, fun us => rfl⟩
  | case3 parts t ts hkind ih =>
    have hopens : Region.commented false t.kind = true := decide_eq_true hkind
    rw [inComment_cons, Option.isSome_none, hopens] at h
    obtain ⟨front, mark', parts', hfront⟩ := ih h
    refine ⟨front, mark', parts', fun us => ?_⟩
    rw [List.cons_append, joinCommentsFrom, if_pos hkind, hfront]
  | case4 parts t ts hkind ih =>
    have hcode : Region.commented false t.kind = false := decide_eq_false hkind
    rw [inComment_cons, Option.isSome_none, hcode] at h
    obtain ⟨front, mark', parts', hfront⟩ := ih h
    refine ⟨t :: front, mark', parts', fun us => ?_⟩
    rw [List.cons_append, joinCommentsFrom, if_neg hkind, hfront, List.cons_append]
  | case5 parts t ts mark hkind ih =>
    have hends : Region.commented true t.kind = false := decide_eq_false (not_not_intro hkind)
    rw [inComment_cons, Option.isSome_some, hends] at h
    obtain ⟨front, mark', parts', hfront⟩ := ih h
    refine ⟨merge .comment parts.reverse mark :: t :: front, mark', parts', fun us => ?_⟩
    rw [List.cons_append, joinCommentsFrom, if_pos hkind, hfront, List.cons_append,
      List.cons_append]
  | case6 parts t ts mark hkind ih =>
    have hinside : Region.commented true t.kind = true := decide_eq_true hkind
    rw [inComment_cons, Option.isSome_some, hinside] at h
    obtain ⟨front, mark', parts', hfront⟩ := ih h
    refine ⟨front, mark', parts', fun us => ?_⟩
    rw [List.cons_append, joinCommentsFrom, if_neg hkind, hfront]

theorem head?_joinStrings {ts joined : List Token} (h : joinStrings ts = .ok joined)
    (hts : ∀ t ∈ ts.head?, t.kind = .newLine) : ∀ t ∈ joined.head?, t.kind = .newLine := by
  cases ts with
  | nil =>
    cases h
    exact hts
  | cons t ts =>
    have ht : t.kind = .newLine := hts t rfl
    rw [joinStrings, joinStringsFrom, if_neg (by simp [ht])] at h
    obtain ⟨others, -, rfl⟩ := map_eq_ok_iff.mp h
    rintro _ ⟨⟩
    exact ht

/-- A mark with the rest of its line becomes one comment. -/
theorem group_comment {mark : Token} {inside us : List Token} (hmark : mark.kind = .startComment)
    (hquote : ∀ t ∈ inside, t.kind ≠ .stringLiteralMarker)
    (hline : ∀ t ∈ inside, t.kind ≠ .newLine) (hus : ∀ t ∈ us.head?, t.kind = .newLine) :
    group (mark :: (inside ++ us)) = (group us).map (merge .comment inside mark :: ·) := by
  have hplain : ∀ t ∈ mark :: inside, t.kind ≠ .stringLiteralMarker :=
    List.forall_mem_cons.mpr ⟨by rw [hmark]; decide, hquote⟩
  rw [group, group, ← List.cons_append, joinStrings,
    joinStringsFrom_append (joinStrings_of_ne hplain)]
  cases hjoined : joinStrings us with
  | error e => rfl
  | ok joined =>
    have hcomments : joinComments (mark :: (inside ++ joined)) =
        merge .comment inside mark :: joinComments joined := by
      rw [joinComments, joinCommentsFrom, if_pos hmark,
        joinCommentsFrom_rest hline (head?_joinStrings hjoined hus)]
      rfl
    exact congrArg Except.ok hcomments

theorem head?_group {ts out : List Token} (h : group ts = .ok out)
    (hts : ∀ t ∈ ts.head?, t.kind = .newLine) : ∀ t ∈ out.head?, t.kind = .newLine := by
  cases ts with
  | nil =>
    cases h
    exact hts
  | cons t ts =>
    have ht : t.kind = .newLine := hts t rfl
    rw [group_cons (by simp [ht]) (by simp [ht])] at h
    obtain ⟨others, -, rfl⟩ := map_eq_ok_iff.mp h
    rintro _ ⟨⟩
    exact ht

/-- Behind tokens that leave a comment open, the rest of the line is added to it. -/
theorem exists_group_open {front : List Token} (h : Region.along {} front = ⟨false, true⟩) :
    ∃ out mark parts, ∀ us inside rest, joinStrings us = .ok (inside ++ rest) →
      (∀ t ∈ inside, t.kind ≠ .newLine) → (∀ t ∈ rest.head?, t.kind = .newLine) →
      group (front ++ us) = .ok (out ++ merge .comment (parts ++ inside) mark ::
        joinComments rest) := by
  obtain ⟨joined, hjoined, hinside⟩ := joinStrings_of_along (congrArg Region.quoted h)
  rw [h] at hinside
  obtain ⟨out, mark, parts, hout⟩ := @joinCommentsFrom_open none [] joined hinside
  refine ⟨out, mark, parts.reverse, fun us inside rest hus hline hrest => ?_⟩
  rw [group, joinStrings, joinStringsFrom_append hjoined, hus]
  refine congrArg Except.ok ?_
  rw [joinComments, hout, joinCommentsFrom_rest hline hrest]

/-- Behind tokens that leave no quote open, strings are joined as if the rest stood alone. -/
theorem exists_joinStrings_of_layOut {front us ts : List Token}
    (hfront : (Region.along {} front).quoted = false) (h : layOut (front ++ us) = .ok ts) :
    ∃ joined, joinStrings us = .ok joined := by
  obtain ⟨before, hbefore, -⟩ := joinStrings_of_along hfront
  obtain ⟨grouped, hgrouped, -⟩ := map_eq_ok_iff.mp h
  rw [group, joinStrings, joinStringsFrom_append hbefore] at hgrouped
  cases hjoined : joinStrings us with
  | error e =>
    rw [hjoined] at hgrouped
    cases hgrouped
  | ok joined => exact ⟨joined, rfl⟩

/-! ## The later passes around a token -/

/-- What the later passes make of `front` and `back` around a comment or literal. -/
theorem layOut_around {ts front back : List Token} {t : Token}
    (h : group ts = .ok (front ++ t :: back)) (ht : t.kind = .comment ∨ t.kind = .stringLiteral) :
    layOut ts = .ok (dropBlanks (endStatements (joinArrayTypes front)) ++
      t :: dropBlanks (endStatementsAfter (some t.kind) (joinArrayTypes back))) := by
  have hne : ∀ kind : Kind, kind ≠ .comment → kind ≠ .stringLiteral → t.kind ≠ kind := by
    rintro _ hcomment hliteral rfl
    obtain ht | ht := ht
    · exact hcomment ht
    · exact hliteral ht
  have hopen := hne .openSquare (by decide) (by decide)
  have hclose := hne .closeSquare (by decide) (by decide)
  have htype := hne .stringType (by decide) (by decide)
  have hblank : ¬t.kind.isBlank = true := by
    obtain ht | ht := ht
    · rw [ht]; decide
    · rw [ht]; decide
  have hkept : ended (settled none (joinArrayTypes front)) t = t := by
    refine if_neg fun hline => hblank ?_
    exact Kind.isBlank_iff.mpr (.inr hline.1)
  have hdrop : ∀ us, dropBlanks (t :: us) = t :: dropBlanks us :=
    fun us => List.filter_cons_of_pos (by simpa using hblank)
  have hlaid : dropBlanks (endStatements (joinArrayTypes (front ++ t :: back))) =
      dropBlanks (endStatements (joinArrayTypes front)) ++
        t :: dropBlanks (endStatementsAfter (some t.kind) (joinArrayTypes back)) := by
    rw [joinArrayTypes_append (apart_cons hclose htype front back), joinArrayTypes_of_ne hopen,
      endStatements, endStatementsAfter_append, endStatementsAfter_cons, hkept,
      settle_of_not_blank hblank, dropBlanks_append, hdrop]
    rfl
  rw [layOut, h]
  exact congrArg Except.ok hlaid

end CheckedScript.Token
