import Mathlib.Data.List.DropRight
import CheckedScript.Proofs.Regions

/-!
Layout between tokens does not matter. At a cut inside no run of characters, literal, comment or
array type each pass works on the two sides separately, and blanks put between them reach neither.
Line ends may be put there only where the statement goes on.

Main results:
* `Token.layOut_cut`: what comes out of the passes.
* `Compiler.layout_insignificant`: tokens and script, and errors but for their positions.
-/

namespace CheckedScript

namespace Token

/-! ## Array types on both sides of a cut -/

/-- The tokens that the array types pass makes one. -/
def IsArrayType (a b c : Token) : Prop :=
  a.kind = .openSquare ∧ b.kind = .closeSquare ∧ c.kind = .stringType

/-- No array type reaches over the cut between `ts` and `us`. -/
structure Apart (ts us : List Token) : Prop where
  one : ∀ front a b c back, ts = front ++ [a] → us = b :: c :: back → ¬IsArrayType a b c
  two : ∀ front a b c back, ts = front ++ [a, b] → us = c :: back → ¬IsArrayType a b c

theorem joinArrayTypes_cons {t : Token} {ts : List Token}
    (h : ∀ b c rest, ts = b :: c :: rest → ¬IsArrayType t b c) :
    joinArrayTypes (t :: ts) = t :: joinArrayTypes ts := by
  match ts with
  | [] | [_] => rfl
  | b :: c :: rest =>
    rw [joinArrayTypes]
    exact if_neg (h b c rest rfl)

theorem joinArrayTypes_of_ne {t : Token} (ht : t.kind ≠ .openSquare) (ts : List Token) :
    joinArrayTypes (t :: ts) = t :: joinArrayTypes ts :=
  joinArrayTypes_cons fun _ _ _ _ harray => ht harray.1

theorem Apart.tail {t : Token} {ts us : List Token} (h : Apart (t :: ts) us) : Apart ts us where
  one front a b c back hts := h.one (t :: front) a b c back (congrArg _ hts)
  two front a b c back hts := h.two (t :: front) a b c back (congrArg _ hts)

theorem Apart.head {t : Token} {ts us : List Token} (h : Apart (t :: ts) us)
    (hnot : ∀ b c rest, ts = b :: c :: rest → ¬IsArrayType t b c) :
    ∀ b c rest, ts ++ us = b :: c :: rest → ¬IsArrayType t b c := by
  intro b c rest heq
  match ts with
  | [] => exact h.one [] t b c rest rfl heq
  | [b'] =>
    obtain ⟨rfl, hrest⟩ := List.cons.inj heq
    exact h.two [] t b' c rest rfl hrest
  | b' :: c' :: rest' =>
    obtain ⟨rfl, hrest⟩ := List.cons.inj heq
    obtain ⟨rfl, -⟩ := List.cons.inj hrest
    exact hnot b' c' rest' rfl

/-- The pass over array types works on the two sides of such a cut separately. -/
theorem joinArrayTypes_append {ts us : List Token} (h : Apart ts us) :
    joinArrayTypes (ts ++ us) = joinArrayTypes ts ++ joinArrayTypes us := by
  fun_induction joinArrayTypes ts with
  | case1 a b c ts hkinds ih =>
    rw [List.cons_append, List.cons_append, List.cons_append, joinArrayTypes, if_pos hkinds,
      ih h.tail.tail.tail, List.cons_append]
  | case2 a b c ts hkinds ih =>
    have hnot : ∀ b' c' rest, b :: c :: ts = b' :: c' :: rest → ¬IsArrayType a b' c' := by
      intro b' c' rest heq
      obtain ⟨rfl, hrest⟩ := List.cons.inj heq
      obtain ⟨rfl, -⟩ := List.cons.inj hrest
      exact hkinds
    rw [List.cons_append, joinArrayTypes_cons (h.head hnot), ih h.tail, List.cons_append]
  | case3 t ts hshort ih =>
    have hnot : ∀ b c rest, ts = b :: c :: rest → ¬IsArrayType t b c :=
      fun b c rest heq => absurd heq (hshort b c rest)
    rw [List.cons_append, joinArrayTypes_cons (h.head hnot), ih h.tail, List.cons_append]
  | case4 => rfl

/-- A token that can only be the first of an array type. -/
theorem apart_cons {t : Token} (hclose : t.kind ≠ .closeSquare) (htype : t.kind ≠ .stringType)
    (ts us : List Token) : Apart ts (t :: us) where
  one front a b c back _ hus harray := by
    obtain ⟨rfl, -⟩ := List.cons.inj hus
    exact hclose harray.2.1
  two front a b c back _ hus harray := by
    obtain ⟨rfl, -⟩ := List.cons.inj hus
    exact htype harray.2.2

/-- Blanks are no part of an array type. -/
theorem joinArrayTypes_blanks {ws : List Token} (h : ∀ t ∈ ws, t.kind.isBlank = true)
    (us : List Token) : joinArrayTypes (ws ++ us) = ws ++ joinArrayTypes us := by
  induction ws with
  | nil => rfl
  | cons t ws ih =>
    obtain ⟨ht, hws⟩ := List.forall_mem_cons.mp h
    rw [List.cons_append, joinArrayTypes_of_ne (Kind.ne_of_isBlank ht rfl), ih hws,
      List.cons_append]

/-! ## Line ends on both sides of a cut -/

/-- The kind that counts as the previous one behind a token. -/
def settle (previous : Option Kind) (kind : Kind) : Option Kind :=
  match kind with
  | .whitespace => previous
  | .newLine => if previous.all Kind.continues then previous else some .semicolon
  | kind => some kind

theorem settle_of_not_blank {kind : Kind} (h : ¬kind.isBlank = true) (previous : Option Kind) :
    settle previous kind = some kind := by
  cases kind with
  | whitespace | newLine => exact absurd rfl h
  | _ => rfl

/-- What becomes of a token behind the kind `previous`. -/
def ended (previous : Option Kind) (t : Token) : Token :=
  if t.kind = .newLine ∧ ¬previous.all Kind.continues = true then
    { t with kind := .semicolon, text := ";" }
  else t

theorem endStatementsAfter_cons (previous : Option Kind) (t : Token) (ts : List Token) :
    endStatementsAfter previous (t :: ts) =
      ended previous t :: endStatementsAfter (settle previous t.kind) ts := by
  rw [endStatementsAfter, ended]
  split
  case h_1 hkind =>
    rw [hkind, if_neg (by simp)]
    rfl
  case h_2 hkind =>
    rw [hkind, settle]
    split
    case isTrue hcontinues => rw [if_neg (by simp [hcontinues])]
    case isFalse hends => rw [if_pos ⟨rfl, hends⟩]
  case h_3 hspace hline =>
    have hblank : ¬t.kind.isBlank = true := by
      rw [Kind.isBlank_iff]
      exact not_or.mpr ⟨hspace, hline⟩
    rw [if_neg (fun h => hline h.1), settle_of_not_blank hblank]

/-- The kind that counts as the previous one behind `ts`. -/
def settled (previous : Option Kind) (ts : List Token) : Option Kind :=
  ts.foldl (fun previous t => settle previous t.kind) previous

theorem settled_append_cons (previous : Option Kind) (ts : List Token) (t : Token)
    (us : List Token) :
    settled previous (ts ++ t :: us) = settled (settle (settled previous ts) t.kind) us := by
  rw [settled, List.foldl_append]
  rfl

theorem endStatementsAfter_append (previous : Option Kind) (ts us : List Token) :
    endStatementsAfter previous (ts ++ us) =
      endStatementsAfter previous ts ++ endStatementsAfter (settled previous ts) us := by
  induction ts generalizing previous with
  | nil => rfl
  | cons t ts ih =>
    rw [List.cons_append, endStatementsAfter_cons, endStatementsAfter_cons, ih, List.cons_append]
    rfl

/-- All that counts of the previous kind is whether a statement goes on behind it. -/
theorem endStatementsAfter_of_continues {previous : Option Kind}
    (h : previous.all Kind.continues = true) (ts : List Token) :
    endStatementsAfter previous ts = endStatementsAfter none ts := by
  induction ts with
  | nil => rfl
  | cons t ts ih =>
    rw [endStatementsAfter, endStatementsAfter]
    split
    · rw [ih]
    · rw [if_pos h, if_pos Option.all_none, ih]
    · rfl

theorem dropBlanks_append (ts us : List Token) :
    dropBlanks (ts ++ us) = dropBlanks ts ++ dropBlanks us := List.filter_append ..

/-- Blanks are dropped, line ends among them if the statement goes on. -/
theorem dropBlanks_endStatementsAfter {ws : List Token} (h : ∀ t ∈ ws, t.kind.isBlank = true)
    {previous : Option Kind}
    (hline : (∃ t ∈ ws, t.kind = .newLine) → previous.all Kind.continues = true)
    (us : List Token) :
    dropBlanks (endStatementsAfter previous (ws ++ us)) =
      dropBlanks (endStatementsAfter previous us) := by
  induction ws with
  | nil => rfl
  | cons t ws ih =>
    obtain ⟨ht, hws⟩ := List.forall_mem_cons.mp h
    have hrest : (∃ t ∈ ws, t.kind = .newLine) → previous.all Kind.continues = true :=
      fun ⟨u, hmem, hu⟩ => hline ⟨u, List.mem_cons_of_mem _ hmem, hu⟩
    have hdrop : ∀ us, dropBlanks (t :: us) = dropBlanks us :=
      fun us => List.filter_cons_of_neg (by simpa using ht)
    have hkept : ended previous t = t ∧ settle previous t.kind = previous := by
      obtain hkind | hkind := Kind.isBlank_iff.mp ht
      · exact ⟨if_neg (by simp [hkind]), by rw [hkind]; rfl⟩
      · have hcontinues := hline ⟨t, List.mem_cons_self .., hkind⟩
        exact ⟨if_neg (by simp [hcontinues]), by rw [hkind]; exact if_pos hcontinues⟩
    rw [List.cons_append, endStatementsAfter_cons, hkept.1, hkept.2, hdrop, ih hws hrest]

/-- Blanks put in at a cut change nothing in the end. -/
theorem layOut_blanks {cs ws ds : List Token} (hapart : Apart cs ds)
    (hblank : ∀ t ∈ ws, t.kind.isBlank = true)
    (hline : (∃ t ∈ ws, t.kind = .newLine) →
      (settled none (joinArrayTypes cs)).all Kind.continues = true) :
    dropBlanks (endStatements (joinArrayTypes (cs ++ (ws ++ ds)))) =
      dropBlanks (endStatements (joinArrayTypes (cs ++ ds))) := by
  have hapart' : Apart cs (ws ++ ds) := by
    cases ws with
    | nil => exact hapart
    | cons w ws =>
      have hw := hblank w (List.mem_cons_self ..)
      exact apart_cons (Kind.ne_of_isBlank hw rfl) (Kind.ne_of_isBlank hw rfl) cs (ws ++ ds)
  rw [joinArrayTypes_append hapart', joinArrayTypes_append hapart, joinArrayTypes_blanks hblank,
    endStatements, endStatements, endStatementsAfter_append none (joinArrayTypes cs) (ws ++ _),
    endStatementsAfter_append none (joinArrayTypes cs), dropBlanks_append, dropBlanks_append,
    dropBlanks_endStatementsAfter hblank hline]

end Token

/-! ## Cuts -/

/-- A place in a source that layout may be put in: inside no run of characters, no literal, no
comment and no array type. A comment reaches up to the end of its line, and where a quote is left
open there are no literals to be inside of. -/
structure Cut (a b : List Char) : Prop where
  boundary : (∀ c ∈ a.getLast?, isSeparator c = true) ∨ ∀ c ∈ b.head?, isSeparator c = true
  outside : Region.behind a = {} ∨ (Region.behind (a ++ b)).quoted = true
  apart : ∀ front back,
    Fragment.split (a ++ b) = front ++ [['['], [']'], "string".toList] ++ back →
    (Fragment.split a).length ≤ front.length ∨ front.length + 3 ≤ (Fragment.split a).length

namespace Token

theorem place_moved (p : Position) (pieces : List (List Char)) :
    ((Fragment.place p pieces).map (ofFragment Rule.standard)).map (moved Position.forget) =
      pieces.map bare := by
  induction pieces generalizing p with
  | nil => rfl
  | cons piece pieces ih =>
    rw [Fragment.place, List.map_cons, List.map_cons, ih, List.map_cons]
    rfl

theorem tiles_append_inv {R : Token → Position → List Char → Prop} {p : Position}
    {ts us : List Token} {cs : List Char} (h : Tiles R p (ts ++ us) cs) :
    ∃ before rest, cs = before ++ rest ∧ Tiles R (p.after before) us rest := by
  induction ts generalizing p cs with
  | nil => exact ⟨[], cs, rfl, h⟩
  | cons t ts ih =>
    obtain ⟨piece, rest, rfl, -, hts⟩ := h.cons_inv
    obtain ⟨before, rest, rfl, hus⟩ := ih hts
    exact ⟨piece ++ before, rest, (List.append_assoc ..).symm, by rwa [Position.after_append]⟩

/-- The last groups of a text are spelled by its end. -/
theorem tiles_of_group {a : List Char} {front back : List Token}
    (h : group ((Fragment.split a).map bare) = .ok (front ++ back)) :
    ∃ before rest p placed, a = before ++ rest ∧ placed.map (moved Position.forget) = back ∧
      Tiles Laid p placed rest := by
  rw [← place_moved {}, group_moved] at h
  cases hgroup : group ((Fragment.place {} (Fragment.split a)).map (ofFragment Rule.standard)) with
  | error e => rw [hgroup] at h; cases h
  | ok grouped =>
    rw [hgroup] at h
    obtain ⟨front', back', rfl, -, hback⟩ := List.map_eq_append_iff.mp (Except.ok.inj h)
    obtain ⟨joined, hjoined, hcomments⟩ := map_eq_ok_iff.mp hgroup
    have htiles := tiles_place (fun _ => @Fragment.isPiece_of_mem_split a _) {}
    rw [Fragment.split_flatten] at htiles
    have hlaid := tiles_joinCommentsFrom .closed (tiles_joinStringsFrom .closed htiles hjoined)
    rw [show joinCommentsFrom none [] joined = front' ++ back' from hcomments] at hlaid
    obtain ⟨before, rest, heq, hrest⟩ := tiles_append_inv hlaid
    exact ⟨before, rest, _, back', heq, hback, hrest⟩

/-- Tokens whose kinds have one spelling each, a single character, are spelled by these. -/
theorem Tiles.eq_of_spellings {p : Position} {ts : List Token} {rest cs : List Char}
    (h : Tiles Laid p ts rest)
    (hcs : ts.map (·.kind.spellings) = cs.map fun c => [String.ofList [c]]) : rest = cs := by
  induction ts generalizing p rest cs with
  | nil =>
    cases h
    exact (List.map_eq_nil_iff.mp hcs.symm).symm
  | cons t ts ih =>
    obtain ⟨c, cs, rfl, hc, hrest⟩ := List.map_eq_cons_iff.mp hcs.symm
    obtain ⟨piece, rest, rfl, hlaid, hts⟩ := h.cons_inv
    have hc : t.kind.spellings = [String.ofList [c]] := hc.symm
    have hmade : ∀ kind : Kind, kind.spellings = [] → t.kind ≠ kind :=
      fun _ => Kind.ne_of_spellings hc
    have hfragment := hlaid.isFragment (hmade _ rfl) (hmade _ rfl) (hmade _ rfl)
    rw [hfragment.piece_eq hc, String.toList_ofList, ih hts hrest.symm]
    rfl

/-- Single characters that the last groups are spelled by are the last pieces. -/
theorem split_of_group {a cs : List Char} {front back : List Token}
    (h : group ((Fragment.split a).map bare) = .ok (front ++ back))
    (hback : back.map (·.kind.spellings) = cs.map fun c => [String.ofList [c]])
    (hcs : ∀ c ∈ cs, isSeparator c = true) :
    ∃ before, Fragment.split a = Fragment.split before ++ cs.map ([·]) := by
  obtain ⟨before, rest, p, placed, rfl, rfl, htiles⟩ := tiles_of_group h
  rw [List.map_map] at hback
  obtain rfl := htiles.eq_of_spellings hback
  refine ⟨before, ?_⟩
  rw [Fragment.split_append (.inr ?_), Fragment.split_separators hcs]
  exact fun c hc => hcs c (List.mem_of_mem_head? hc)

/-- The first piece of a text whose first group is neither literal nor comment. -/
theorem split_cons_of_group {pieces : List (List Char)} {t : Token} {rest : List Token}
    {text : String} (h : group (pieces.map bare) = .ok (t :: rest))
    (ht : t.kind.spellings = [text]) :
    ∃ others, pieces = text.toList :: others ∧ group (others.map bare) = .ok rest := by
  obtain ⟨us, hus, hgroup⟩ := group_cons_inv h (Kind.ne_of_spellings ht rfl)
    (Kind.ne_of_spellings ht rfl)
  obtain ⟨piece, others, rfl, rfl, rfl⟩ := List.map_eq_cons_iff.mp hus
  exact ⟨others, by rw [piece_of_bare ht], hgroup⟩

/-- A cut inside no array type of the text is inside none of the groups. -/
theorem apart_of_cut {a b : List Char} (hcut : Cut a b) {out others : List Token}
    (ha : group ((Fragment.split a).map bare) = .ok out)
    (hb : group ((Fragment.split b).map bare) = .ok others) : Apart out others where
  one front x y z back hout hothers harray := by
    obtain ⟨hx, hy, hz⟩ := harray
    subst hout hothers
    obtain ⟨before, hbefore⟩ := @split_of_group a ['['] front [x] ha
      (by rw [List.map_singleton, hx]; rfl) (by simp [isSeparator, separators])
    obtain ⟨pieces, hpieces, hb⟩ := split_cons_of_group hb
      (show y.kind.spellings = ["]"] by rw [hy]; rfl)
    obtain ⟨pieces, rfl, -⟩ := split_cons_of_group hb
      (show z.kind.spellings = ["string"] by rw [hz]; rfl)
    have hsplit := Fragment.split_append hcut.boundary
    rw [hbefore, hpieces] at hsplit
    have hlength := hcut.apart (Fragment.split before) pieces (by rw [hsplit]; simp)
    rw [hbefore, List.length_append, List.length_map, List.length_singleton] at hlength
    omega
  two front x y z back hout hothers harray := by
    obtain ⟨hx, hy, hz⟩ := harray
    subst hout hothers
    obtain ⟨before, hbefore⟩ := @split_of_group a ['[', ']'] front [x, y] ha
      (by rw [List.map_cons, List.map_singleton, hx, hy]; rfl) (by simp [isSeparator, separators])
    obtain ⟨pieces, hpieces, -⟩ := split_cons_of_group hb
      (show z.kind.spellings = ["string"] by rw [hz]; rfl)
    have hsplit := Fragment.split_append hcut.boundary
    rw [hbefore, hpieces] at hsplit
    have hlength := hcut.apart (Fragment.split before) pieces (by rw [hsplit]; simp)
    rw [hbefore, List.length_append, List.length_map] at hlength
    simp only [List.length_cons, List.length_nil] at hlength
    omega

/-! ## Statements that go on -/

/-- The blanks of a line. -/
def spaces : List Char := [' ', '\t', '\r']

/-- Characters that a line end behind them ends no statement after. -/
def openEnds : List Char := ['\n', '\x7b', '(', '[', ',', ';']

theorem kind_bare_space {c : Char} (h : c ∈ spaces) : (bare [c]).kind = .whitespace := by
  fin_cases h <;> decide

theorem kind_bare_openEnd {c : Char} (h : c ∈ openEnds) (hline : c ≠ '\n') :
    c ≠ '"' ∧ c ≠ '#' ∧ (bare [c]).kind.continues = true := by
  obtain rfl | h := List.mem_cons.mp h
  · exact absurd rfl hline
  · fin_cases h <;> exact ⟨by decide, by decide, by decide⟩

theorem isBlank_bare_layout {c : Char} (h : c ∈ layoutChars) :
    (bare [c]).kind.isBlank = true := by
  fin_cases h <;> decide

theorem isSeparator_of_layout {c : Char} (h : c ∈ layoutChars) : isSeparator c = true := by
  fin_cases h <;> decide

theorem isSeparator_of_openEnd {c : Char} (h : c ∈ openEnds) : isSeparator c = true := by
  fin_cases h <;> decide

theorem foldl_step_spaces {cs : List Char} (h : ∀ c ∈ cs, c ∈ spaces) (r : Region) :
    cs.foldl Region.step r = r := by
  have hne : ∀ c ∈ spaces, c ≠ '"' ∧ c ≠ '#' ∧ c ≠ '\n' := by simp [spaces]
  exact Region.foldl_step_of_ne (fun c hc => hne c (h c hc)) r

theorem settled_spaces {ts : List Token} (h : ∀ t ∈ ts, t.kind = .whitespace)
    (previous : Option Kind) : settled previous ts = previous := by
  induction ts with
  | nil => rfl
  | cons t ts ih =>
    obtain ⟨ht, hts⟩ := List.forall_mem_cons.mp h
    rw [settled, List.foldl_cons, ht]
    exact ih hts

theorem settle_continues {kind : Kind} (h : kind = .newLine ∨ kind.continues = true)
    (previous : Option Kind) : (settle previous kind).all Kind.continues = true := by
  obtain rfl | h := h
  · rw [settle]
    split
    case isTrue hcontinues => exact hcontinues
    case isFalse => rfl
  · rw [settle_of_not_blank]
    · exact h
    · intro hblank
      obtain rfl | rfl := Kind.isBlank_iff.mp hblank <;> cases h

/-- Groups end where a character does that leaves a statement open. -/
theorem group_openEnd {before : List Char} {c : Char} (hc : c ∈ openEnds)
    (hregion : Region.behind (before ++ [c]) = {}) :
    ∃ out, ∀ us, group ((Fragment.split before).map bare ++ bare [c] :: us) =
      (group us).map (out ++ bare [c] :: ·) := by
  rw [Region.behind, List.foldl_append, List.foldl_cons, List.foldl_nil] at hregion
  by_cases hline : c = '\n'
  · refine group_lineEnd ?_ (kind_bare_lineEnd.mpr (by rw [hline]))
    have hquote : c ≠ '"' := by rw [hline]; decide
    rw [Region.along_split, ← Region.quoted_step_of_ne hquote, hregion]
  · obtain ⟨hquote, hhash, -⟩ := kind_bare_openEnd hc hline
    rw [Region.step_of_ne hquote hhash hline] at hregion
    obtain ⟨out, hout⟩ := group_append ((Region.along_split {} before).trans hregion)
    refine ⟨out, fun us => ?_⟩
    have hne : ∀ d, c ≠ d → [c] ≠ [d] := fun d hd heq => hd (List.cons.inj heq).1
    rw [hout, group_cons (mt kind_bare_quote.mp (hne _ hquote))
      (mt kind_bare_hash.mp (hne _ hhash))]
    cases group us <;> rfl

/-- A text is blank, or up to blanks at its end it ends in a character of its own. -/
theorem exists_openEnd {a : List Char}
    (h : ∀ c ∈ (a.rdropWhile fun c => c ∈ spaces).getLast?, c ∈ openEnds) :
    (∀ c ∈ a, c ∈ spaces) ∨ ∃ before c pad, a = before ++ [c] ++ pad ∧ c ∈ openEnds ∧
      ∀ d ∈ pad, d ∈ spaces := by
  have ha := @List.rdropWhile_append_rtakeWhile _ (fun c => decide (c ∈ spaces)) a
  have hpad : ∀ c ∈ a.rtakeWhile (fun c => decide (c ∈ spaces)), c ∈ spaces := by
    intro c hc
    simpa using List.mem_rtakeWhile_imp hc
  obtain htext | ⟨before, c, htext⟩ := (a.rdropWhile fun c => decide (c ∈ spaces)).eq_nil_or_concat
  · rw [htext, List.nil_append] at ha
    exact .inl (ha ▸ hpad)
  · rw [htext, List.concat_eq_append] at ha h
    exact .inr ⟨before, c, _, ha.symm, h c List.getLast?_concat, hpad⟩

section

variable {pad : List Char} (hpad : ∀ c ∈ pad, c ∈ spaces)

include hpad

theorem kind_bare_spaces : ∀ t ∈ pad.map (fun c => bare [c]), t.kind = .whitespace := by
  intro t ht
  obtain ⟨c, hc, rfl⟩ := List.mem_map.mp ht
  exact kind_bare_space (hpad c hc)

theorem map_bare_split_append_spaces (text : List Char) :
    (Fragment.split (text ++ pad)).map bare =
      (Fragment.split text).map bare ++ pad.map fun c => bare [c] := by
  have hseparator : ∀ c ∈ pad, isSeparator c = true :=
    fun c hc => isSeparator_of_layout (List.mem_append_left ['\n'] (hpad c hc))
  rw [Fragment.split_append (.inr fun c hc => hseparator c (List.mem_of_mem_head? hc)),
    Fragment.split_separators hseparator, List.map_append, List.map_map]
  rfl

theorem group_spaces :
    group (pad.map fun c => bare [c]) = .ok (pad.map fun c => bare [c]) := by
  have h := group_blanks (fun t ht => Kind.isBlank_iff.mpr (.inl (kind_bare_spaces hpad t ht))) []
  rw [List.append_nil] at h
  exact h.trans (congrArg Except.ok (List.append_nil _))

theorem joinArrayTypes_spaces :
    joinArrayTypes (pad.map fun c => bare [c]) = pad.map fun c => bare [c] := by
  have h := joinArrayTypes_blanks
    (fun t ht => Kind.isBlank_iff.mpr (.inl (kind_bare_spaces hpad t ht))) []
  rw [List.append_nil] at h
  exact h.trans (List.append_nil _)

end

/-- Behind a text that leaves its statement open, a line end ends none. -/
theorem settled_continues {a : List Char} {out : List Token} (hregion : Region.behind a = {})
    (hgroup : group ((Fragment.split a).map bare) = .ok out)
    (hend : ∀ c ∈ (a.rdropWhile fun c => c ∈ spaces).getLast?, c ∈ openEnds) :
    (settled none (joinArrayTypes out)).all Kind.continues = true := by
  obtain hspaces | ⟨before, c, pad, rfl, hc, hpad⟩ := exists_openEnd hend
  · have hsplit := map_bare_split_append_spaces hspaces []
    rw [List.nil_append] at hsplit
    rw [hsplit] at hgroup
    obtain rfl := Except.ok.inj ((group_spaces hspaces).symm.trans hgroup)
    rw [joinArrayTypes_spaces hspaces, settled_spaces (kind_bare_spaces hspaces)]
    rfl
  · rw [Region.behind, List.foldl_append, foldl_step_spaces hpad] at hregion
    obtain ⟨out', hout'⟩ := group_openEnd hc hregion
    have hc' : (bare [c]).kind = .newLine ∨ (bare [c]).kind.continues = true := by
      by_cases hline : c = '\n'
      · exact .inl (kind_bare_lineEnd.mpr (by rw [hline]))
      · exact .inr (kind_bare_openEnd hc hline).2.2
    have hne : ∀ kind : Kind, kind ≠ .newLine → kind.continues = false →
        (bare [c]).kind ≠ kind := by
      rintro _ hline hends rfl
      obtain h | h := hc'
      · exact hline h
      · rw [hends] at h
        cases h
    have hsplit : (Fragment.split (before ++ [c])).map bare =
        (Fragment.split before).map bare ++ [bare [c]] := by
      rw [Fragment.split_append (.inr ?_), List.map_append]
      · rfl
      · rintro d ⟨⟩
        exact isSeparator_of_openEnd hc
    rw [map_bare_split_append_spaces hpad, hsplit, List.append_assoc, List.singleton_append,
      hout', group_spaces hpad] at hgroup
    obtain rfl := Except.ok.inj hgroup
    have hfirst : ∀ b d rest, pad.map (fun c => bare [c]) = b :: d :: rest →
        ¬IsArrayType (bare [c]) b d := by
      rintro b d rest hrest ⟨-, hb, -⟩
      rw [kind_bare_spaces hpad b (by rw [hrest]; exact List.mem_cons_self ..)] at hb
      cases hb
    rw [joinArrayTypes_append
        (apart_cons (hne _ (by decide) rfl) (hne _ (by decide) rfl) out' _),
      joinArrayTypes_cons hfirst, joinArrayTypes_spaces hpad, settled_append_cons,
      settled_spaces (kind_bare_spaces hpad)]
    exact settle_continues hc' _

/-- Layout in a cut changes nothing that comes out of the passes. -/
theorem layOut_cut {a b w : List Char} (hcut : Cut a b) (hregion : Region.behind a = {})
    (hw : ∀ c ∈ w, c ∈ layoutChars)
    (hline : '\n' ∈ w → ∀ c ∈ (a.rdropWhile fun c => c ∈ spaces).getLast?, c ∈ openEnds) :
    layOut ((Fragment.split (a ++ w ++ b)).map bare) =
      layOut ((Fragment.split (a ++ b)).map bare) := by
  have hseparator : ∀ c ∈ w, isSeparator c = true := fun c hc => isSeparator_of_layout (hw c hc)
  have hsplit : (Fragment.split (a ++ w ++ b)).map bare = (Fragment.split a).map bare ++
      (w.map (fun c => bare [c]) ++ (Fragment.split b).map bare) := by
    have hfront : (∀ c ∈ a.getLast?, isSeparator c = true) ∨
        ∀ c ∈ (w ++ b).head?, isSeparator c = true := by
      cases w with
      | nil => exact hcut.boundary
      | cons d w => exact .inr fun c hc => Option.mem_some.mp hc ▸ hseparator d (.head w)
    have hback : ∀ c ∈ w.getLast?, isSeparator c = true :=
      fun c hc => hseparator c (List.mem_of_mem_getLast? hc)
    rw [List.append_assoc, Fragment.split_append hfront, Fragment.split_append (.inl hback),
      Fragment.split_separators hseparator, List.map_append, List.map_append, List.map_map]
    rfl
  have hblank : ∀ t ∈ w.map (fun c => bare [c]), t.kind.isBlank = true := by
    intro t ht
    obtain ⟨c, hc, rfl⟩ := List.mem_map.mp ht
    exact isBlank_bare_layout (hw c hc)
  obtain ⟨out, hout⟩ := group_append ((Region.along_split {} a).trans hregion)
  have hgroup : group ((Fragment.split a).map bare) = .ok out := by
    have h := hout []
    rw [List.append_nil] at h
    exact h.trans (congrArg Except.ok (List.append_nil _))
  rw [hsplit, Fragment.split_append hcut.boundary, List.map_append, layOut, layOut, hout, hout,
    group_blanks hblank]
  cases hothers : group ((Fragment.split b).map bare) with
  | error e => rfl
  | ok others =>
    refine congrArg Except.ok (layOut_blanks (apart_of_cut hcut hgroup hothers) hblank ?_)
    rintro ⟨t, ht, hkind⟩
    obtain ⟨c, hc, rfl⟩ := List.mem_map.mp ht
    obtain ⟨rfl, -⟩ := List.cons.inj (kind_bare_lineEnd.mp hkind)
    exact settled_continues hregion hgroup (hline hc)

end Token

theorem Region.along_moved (f : Position → Position) (r : Region) (ts : List Token) :
    r.along (ts.map (Token.moved f)) = r.along ts := by
  rw [along, along, List.foldl_map]
  rfl

namespace Compiler

open Token (bare)

/-- Positions aside, the tokens of a source are those of its pieces. -/
theorem result_tokens_forget (file : Option String) (source : String) :
    mapBoth (CompileError.moved Position.forget) (List.map (Token.moved Position.forget))
        (tokens file source).result =
      Token.layOut ((Fragment.split source.toList).map bare) := by
  rw [result_tokens_eq_layOut, ← Token.layOut_moved, Fragment.ofSource, Token.place_moved]

/-- Positions aside, the program of a source is built from its pieces. -/
theorem result_parse_forget (config : Config) (file : Option String) (source : String) :
    mapBoth (CompileError.moved Position.forget) (Program.moved Position.forget)
        (parse config file source).result =
      (Token.layOut ((Fragment.split source.toList).map bare)).bind fun ts =>
        (({ options := config.buildOptions } : Builder).build ts).result := by
  rw [result_parse, ← result_tokens_forget file source]
  symm
  apply bind_mapBoth
  intro ts
  rw [Builder.result_build_moved]

/-- A source with a quote that is never closed has no tokens. -/
theorem result_tokens_of_quoted {file : Option String} {source : String}
    (h : (Region.behind source.toList).quoted = true) :
    ∃ p, (tokens file source).result = .error (.malformed .unterminatedString (some p)) := by
  rw [result_tokens]
  cases hjoined : Token.joinStrings
      ((Fragment.ofSource file source).map (Token.ofFragment Token.Rule.standard)) with
  | error e =>
    obtain ⟨-, p, rfl⟩ := Token.quoted_of_joinStringsFrom hjoined false
    exact ⟨p, rfl⟩
  | ok joined =>
    have hregion := Token.along_of_joinStringsFrom hjoined false
    rw [Option.isSome_none, ← Region.along_moved Position.forget, Fragment.ofSource,
      Token.place_moved, Region.along_split] at hregion
    rw [Region.behind, hregion] at h
    cases h

/-- Layout does not make or close quotes. -/
theorem quoted_behind_layout {a b w : List Char} (hw : ∀ c ∈ w, c ∈ Token.layoutChars) :
    (Region.behind (a ++ w ++ b)).quoted = (Region.behind (a ++ b)).quoted := by
  have hcount : w.count '"' = 0 :=
    List.count_eq_zero.mpr fun hquote => absurd (hw _ hquote) (by decide)
  rw [Region.behind, Region.behind, Region.quoted_foldl_step, Region.quoted_foldl_step,
    List.count_append, List.count_append, List.count_append, hcount, Nat.add_zero]

theorem result_tokens_layout {a b w : String} (hcut : Cut a.toList b.toList)
    (hw : ∀ c ∈ w.toList, c ∈ Token.layoutChars)
    (hline : '\n' ∈ w.toList →
      ∀ c ∈ (a.toList.rdropWhile fun c => c ∈ Token.spaces).getLast?, c ∈ Token.openEnds)
    (file : Option String) :
    mapBoth (CompileError.moved Position.forget) (List.map (Token.moved Position.forget))
        (tokens file (a ++ w ++ b)).result =
      mapBoth (CompileError.moved Position.forget) (List.map (Token.moved Position.forget))
        (tokens file (a ++ b)).result := by
  obtain hregion | hquoted := hcut.outside
  · simp only [result_tokens_forget, String.toList_append]
    exact Token.layOut_cut hcut hregion hw hline
  · have hquoted' := hquoted
    rw [← quoted_behind_layout hw] at hquoted'
    rw [← String.toList_append] at hquoted hquoted'
    rw [← String.toList_append] at hquoted'
    obtain ⟨p, hp⟩ := @result_tokens_of_quoted file _ hquoted
    obtain ⟨q, hq⟩ := @result_tokens_of_quoted file _ hquoted'
    rw [hp, hq]
    rfl

/-- Spaces, tabs and line ends in a cut change neither the tokens nor the script; line ends only
where a statement goes on. Errors stay the same but for positions. -/
theorem layout_insignificant {a b w : String} (hcut : Cut a.toList b.toList)
    (hw : ∀ c ∈ w.toList, c ∈ [' ', '\t', '\r', '\n'])
    (hline : '\n' ∈ w.toList →
      ∀ c ∈ (a.toList.rdropWhile fun c => c ∈ [' ', '\t', '\r']).getLast?,
        c ∈ ['\n', '\x7b', '(', '[', ',', ';'])
    (valid : String → Bool) (config : Config) (file : Option String) :
    mapBoth (CompileError.moved Position.forget) (List.map fun t => (t.kind, t.text))
        (tokens file (a ++ w ++ b)).result =
      mapBoth (CompileError.moved Position.forget) (List.map fun t => (t.kind, t.text))
        (tokens file (a ++ b)).result ∧
    mapBoth (CompileError.moved Position.forget) id
        (compileBy valid config file (a ++ w ++ b)).result =
      mapBoth (CompileError.moved Position.forget) id
        (compileBy valid config file (a ++ b)).result := by
  have htokens := result_tokens_layout hcut hw hline file
  have hforget : ∀ x : Except CompileError (List Token),
      mapBoth (CompileError.moved Position.forget) (List.map fun t => (t.kind, t.text)) x =
        mapBoth id (List.map fun t => (t.kind, t.text)) (mapBoth
          (CompileError.moved Position.forget) (List.map (Token.moved Position.forget)) x) := by
    intro x
    cases x with
    | error e => rfl
    | ok ts =>
      dsimp only [mapBoth]
      rw [List.map_map]
      rfl
  refine ⟨?_, result_compileBy_moved htokens valid config⟩
  rw [hforget, htokens, ← hforget]

/-- A line end behind an opening brace. -/
theorem layout_insignificant_in_body :
    (compileBy (fun _ => true) {} none ("# \"c\"\nmain:():\x7b" ++ "\n\t" ++ "\x7d")).result =
      .ok "# main code\n" := by
  have hsplit : Fragment.split ("# \"c\"\nmain:():\x7b".toList ++ "\x7d".toList) =
      [['#'], [' '], ['"'], ['c'], ['"'], ['\n'], "main".toList, [':'], ['('], [')'], [':'],
        ['\x7b'], ['\x7d']] := by cbv
  have hcut : Cut "# \"c\"\nmain:():\x7b".toList "\x7d".toList := by
    refine ⟨.inr (by simp [isSeparator, separators]), .inl (by cbv), fun front back h => ?_⟩
    have hmem : "string".toList ∈ front ++ [['['], [']'], "string".toList] ++ back := by simp
    rw [← h, hsplit] at hmem
    simp at hmem
  have hplain : (compileBy (fun _ => true) {} none ("# \"c\"\nmain:():\x7b" ++ "\x7d")).result =
      .ok "# main code\n" := by cbv
  have hsame := (layout_insignificant hcut (w := "\n\t") (by simp) (by simp [List.rdropWhile])
    (fun _ => true) {} none).2
  rw [hplain] at hsame
  cases hresult : (compileBy (fun _ => true) {} none
      ("# \"c\"\nmain:():\x7b" ++ "\n\t" ++ "\x7d")).result with
  | error e => rw [hresult] at hsame; cases hsame
  | ok script => rw [hresult] at hsame; exact hsame

end Compiler

end CheckedScript
