import Mathlib.Data.Nat.Bits
import CheckedScript.Proofs.Relocation
import CheckedScript.Proofs.Spelling

/-!
Code, literals and comments told apart by the characters of a source. A text is split on both
sides of a cut that is inside no run of characters, and tokens in front of a cut that is in no
literal and no comment are grouped without those behind it.

Main results:
* `Fragment.split_append`: splitting a text on both sides of a cut.
* `Token.group_append`, `Token.group_lineEnd`: grouping the tokens in front of one.
-/

namespace CheckedScript

/-! ## Pieces -/

namespace Fragment

theorem attach_separator {c : Char} (h : isSeparator c = true) (pieces : List (List Char)) :
    attach c pieces = [c] :: pieces := by
  unfold attach
  split
  · rw [h, Bool.true_or, if_pos rfl]
  · rfl

theorem attach_append (c : Char) {pieces : List (List Char)} (h : pieces ≠ [])
    (others : List (List Char)) : attach c (pieces ++ others) = attach c pieces ++ others := by
  match pieces with
  | [] :: pieces => rfl
  | (d :: ds) :: pieces =>
    rw [List.cons_append, attach, attach]
    split <;> rfl

theorem split_ne_nil {cs : List Char} (h : cs ≠ []) : split cs ≠ [] := by
  intro hsplit
  apply h
  rw [← split_flatten cs, hsplit]
  rfl

/-- A run does not reach over a separator that follows it. -/
theorem attach_split (c : Char) {cs : List Char} (h : ∀ d ∈ cs.head?, isSeparator d = true) :
    attach c (split cs) = [c] :: split cs := by
  cases cs with
  | nil => rfl
  | cons d cs =>
    have hd : isSeparator d = true := h d rfl
    rw [split, attach_separator hd, attach, hd, Bool.or_true, if_pos rfl]

/-- A run of characters up to a separator is one piece. -/
theorem split_run {run cs : List Char} (hne : run ≠ [])
    (hrun : ∀ c ∈ run, isSeparator c = false) (hcs : ∀ c ∈ cs.head?, isSeparator c = true) :
    split (run ++ cs) = run :: split cs := by
  induction run with
  | nil => exact absurd rfl hne
  | cons c run ih =>
    obtain ⟨hc, hrun⟩ := List.forall_mem_cons.mp hrun
    rw [List.cons_append, split]
    cases run with
    | nil => exact attach_split c hcs
    | cons d run =>
      have hd : isSeparator d = false := hrun d (List.mem_cons_self ..)
      rw [ih (List.cons_ne_nil _ _) hrun, attach, hc, hd, if_neg (by simp)]

/-- A text may be split on both sides of a cut that is inside no run. -/
theorem split_append {a b : List Char} (h : (∀ c ∈ a.getLast?, isSeparator c = true) ∨
    ∀ c ∈ b.head?, isSeparator c = true) : split (a ++ b) = split a ++ split b := by
  induction a with
  | nil => rfl
  | cons c a ih =>
    rw [List.cons_append, split, split]
    by_cases ha : a = []
    · subst ha
      rw [List.nil_append]
      obtain h | h := h
      · have hc : isSeparator c = true := h c rfl
        rw [attach_separator hc, attach_separator hc]
        rfl
      · rw [attach_split c h]
        rfl
    · rw [List.getLast?_cons_of_ne_nil ha] at h
      rw [ih h, attach_append c (split_ne_nil ha)]

theorem split_separators {cs : List Char} (h : ∀ c ∈ cs, isSeparator c = true) :
    split cs = cs.map ([·]) := by
  induction cs with
  | nil => rfl
  | cons c cs ih =>
    obtain ⟨hc, hcs⟩ := List.forall_mem_cons.mp h
    rw [split, ih hcs, attach_separator hc, List.map_cons]

end Fragment

/-! ## Regions -/

/-- Where a character stands: between quotes, and behind a mark that opens a comment. -/
structure Region where
  quoted : Bool := false
  comment : Bool := false
deriving DecidableEq, Repr

namespace Region

/-- The region behind the character `c`. Between quotes only a quote counts. -/
def step (r : Region) (c : Char) : Region :=
  if c = '"' then { r with quoted := !r.quoted }
  else if r.quoted then r
  else { r with comment := if r.comment then c ≠ '\n' else c = '#' }

/-- The region that a text leads to. -/
def behind (cs : List Char) : Region := cs.foldl step {}

/-- Whether the rest of the line is a comment behind a token of this kind. -/
def commented (inside : Bool) (kind : Token.Kind) : Bool :=
  if inside then kind ≠ .newLine else kind = .startComment

/-- The region behind a fragment of the given kind. -/
def next (r : Region) (kind : Token.Kind) : Region :=
  if kind = .stringLiteralMarker then { r with quoted := !r.quoted }
  else if r.quoted then r
  else { r with comment := commented r.comment kind }

end Region

namespace Token

/-- The token of a piece, its position left open. -/
def bare (piece : List Char) : Token := ofFragment Rule.standard ⟨String.ofList piece, {}⟩

theorem piece_of_bare {piece : List Char} {text : String}
    (h : (bare piece).kind.spellings = [text]) : piece = text.toList := by
  rw [← eq_of_spellings h, String.toList_ofList]

theorem kind_bare_quote {piece : List Char} :
    (bare piece).kind = .stringLiteralMarker ↔ piece = ['"'] := by
  refine ⟨fun h => piece_of_bare (show (bare piece).kind.spellings = ["\""] by rw [h]; rfl), ?_⟩
  rintro rfl
  decide

theorem kind_bare_hash {piece : List Char} :
    (bare piece).kind = .startComment ↔ piece = ['#'] := by
  refine ⟨fun h => piece_of_bare (show (bare piece).kind.spellings = ["#"] by rw [h]; rfl), ?_⟩
  rintro rfl
  decide

theorem kind_bare_lineEnd {piece : List Char} :
    (bare piece).kind = .newLine ↔ piece = ['\n'] := by
  refine ⟨fun h => piece_of_bare (show (bare piece).kind.spellings = ["\n"] by rw [h]; rfl), ?_⟩
  rintro rfl
  decide

end Token

namespace Region

open Token (bare)

theorem step_of_ne {c : Char} (hquote : c ≠ '"') (hhash : c ≠ '#') (hline : c ≠ '\n')
    (r : Region) : r.step c = r := by
  obtain ⟨quoted, comment⟩ := r
  cases quoted <;> cases comment <;> simp [step, hquote, hhash, hline]

theorem quoted_step_of_ne {c : Char} (hquote : c ≠ '"') (r : Region) :
    (r.step c).quoted = r.quoted := by
  rw [step, if_neg hquote]
  split <;> rfl

/-- Quotes open and close in turn. -/
theorem quoted_foldl_step (cs : List Char) (r : Region) :
    (cs.foldl step r).quoted = (r.quoted ^^ (cs.count '"').bodd) := by
  induction cs generalizing r with
  | nil => simp
  | cons c cs ih =>
    rw [List.foldl_cons, ih]
    by_cases hquote : c = '"'
    · subst hquote
      rw [List.count_cons_self, Nat.bodd_succ, step, if_pos rfl]
      cases r.quoted <;> simp
    · rw [List.count_cons_of_ne hquote, quoted_step_of_ne hquote]

theorem foldl_step_of_ne {cs : List Char} (h : ∀ c ∈ cs, c ≠ '"' ∧ c ≠ '#' ∧ c ≠ '\n')
    (r : Region) : cs.foldl step r = r := by
  induction cs with
  | nil => rfl
  | cons c cs ih =>
    obtain ⟨⟨hquote, hhash, hline⟩, hcs⟩ := List.forall_mem_cons.mp h
    rw [List.foldl_cons, step_of_ne hquote hhash hline, ih hcs]

theorem next_of_ne {kind : Token.Kind} (hquote : kind ≠ .stringLiteralMarker)
    (hhash : kind ≠ .startComment) (hline : kind ≠ .newLine) (r : Region) : r.next kind = r := by
  obtain ⟨quoted, comment⟩ := r
  cases quoted <;> cases comment <;> simp [next, commented, hquote, hhash, hline]

/-- Only the characters that are pieces of their own change the region. -/
theorem foldl_step_piece {piece : List Char} (h : Fragment.IsPiece piece) (r : Region) :
    piece.foldl step r = r.next (bare piece).kind := by
  obtain ⟨c, -, rfl⟩ | ⟨-, hrun⟩ := h
  · simp only [List.foldl_cons, List.foldl_nil, step, next, commented, ne_eq,
      Token.kind_bare_quote, Token.kind_bare_hash, Token.kind_bare_lineEnd, List.cons.injEq,
      and_true]
  · have hne : ∀ d : Char, isSeparator d = true → ∀ c ∈ piece, c ≠ d := by
      rintro _ hd c hc rfl
      rw [hrun c hc] at hd
      cases hd
    have hother : ∀ d : Char, isSeparator d = true → piece ≠ [d] :=
      fun d hd heq => hne d hd d (heq ▸ List.mem_singleton_self d) rfl
    rw [foldl_step_of_ne, next_of_ne]
    · exact fun hkind => hother _ (by decide) (Token.kind_bare_quote.mp hkind)
    · exact fun hkind => hother _ (by decide) (Token.kind_bare_hash.mp hkind)
    · exact fun hkind => hother _ (by decide) (Token.kind_bare_lineEnd.mp hkind)
    · exact fun c hc => ⟨hne _ (by decide) c hc, hne _ (by decide) c hc, hne _ (by decide) c hc⟩

/-- The region that fragments lead to. -/
def along (r : Region) (ts : List Token) : Region := ts.foldl (fun r t => r.next t.kind) r

theorem along_cons (r : Region) (t : Token) (ts : List Token) :
    r.along (t :: ts) = (r.next t.kind).along ts := rfl

theorem next_quote {kind : Token.Kind} (h : kind = .stringLiteralMarker) (r : Region) :
    r.next kind = { r with quoted := !r.quoted } := if_pos h

theorem next_quoted {kind : Token.Kind} (h : kind ≠ .stringLiteralMarker) (inside : Bool) :
    next ⟨true, inside⟩ kind = ⟨true, inside⟩ := if_neg h

theorem next_code {kind : Token.Kind} (h : kind ≠ .stringLiteralMarker) (inside : Bool) :
    next ⟨false, inside⟩ kind = ⟨false, commented inside kind⟩ := if_neg h

theorem along_split (r : Region) (cs : List Char) :
    r.along ((Fragment.split cs).map bare) = cs.foldl step r := by
  have hpieces : ∀ pieces : List (List Char), (∀ piece ∈ pieces, Fragment.IsPiece piece) →
      ∀ r : Region, r.along (pieces.map bare) = pieces.flatten.foldl step r := by
    intro pieces
    induction pieces with
    | nil => intro _ r; rfl
    | cons piece pieces ih =>
      intro h r
      obtain ⟨hpiece, hpieces⟩ := List.forall_mem_cons.mp h
      rw [List.flatten_cons, List.foldl_append, foldl_step_piece hpiece, ← ih hpieces]
      rfl
  rw [hpieces _ (fun _ => Fragment.isPiece_of_mem_split), Fragment.split_flatten]

end Region

namespace Token

/-! ## Strings and comments on both sides of a cut -/

theorem joinStringsFrom_none (parts ts : List Token) :
    joinStringsFrom none parts ts = joinStrings ts := by
  cases ts <;> rfl

theorem joinCommentsFrom_none (parts ts : List Token) :
    joinCommentsFrom none parts ts = joinComments ts := by
  cases ts <;> rfl

theorem joinStringsFrom_append {mark : Option Token} {parts ts out : List Token}
    (h : joinStringsFrom mark parts ts = .ok out) (us : List Token) :
    joinStringsFrom mark parts (ts ++ us) = (joinStrings us).map (out ++ ·) := by
  fun_induction joinStringsFrom mark parts ts generalizing out with
  | case1 parts =>
    cases h
    rw [List.nil_append, joinStringsFrom_none]
    cases joinStrings us <;> rfl
  | case2 => cases h
  | case3 parts t ts hkind ih =>
    rw [List.cons_append, joinStringsFrom, if_pos hkind]
    exact ih h
  | case4 parts t ts hkind ih =>
    obtain ⟨others, hothers, rfl⟩ := map_eq_ok_iff.mp h
    rw [List.cons_append, joinStringsFrom, if_neg hkind, ih hothers]
    cases joinStrings us <;> rfl
  | case5 parts t ts mark hkind ih =>
    obtain ⟨others, hothers, rfl⟩ := map_eq_ok_iff.mp h
    rw [List.cons_append, joinStringsFrom, if_pos hkind, ih hothers]
    cases joinStrings us <;> rfl
  | case6 parts t ts mark hkind ih =>
    rw [List.cons_append, joinStringsFrom, if_neg hkind]
    exact ih h

/-- Whether the rest of the line is a comment behind `ts`, which has no quotes. -/
def inComment (inside : Bool) (ts : List Token) : Bool :=
  ts.foldl (fun inside t => Region.commented inside t.kind) inside

theorem inComment_cons (inside : Bool) (t : Token) (ts : List Token) :
    inComment inside (t :: ts) = inComment (Region.commented inside t.kind) ts := rfl

/-- The pass over strings keeps the comments apart from the code. -/
theorem along_of_joinStringsFrom {mark : Option Token} {parts ts out : List Token}
    (h : joinStringsFrom mark parts ts = .ok out) (inside : Bool) :
    Region.along ⟨mark.isSome, inside⟩ ts = ⟨false, inComment inside out⟩ := by
  fun_induction joinStringsFrom mark parts ts generalizing out inside with
  | case1 => cases h; rfl
  | case2 => cases h
  | case3 parts t ts hkind ih =>
    rw [Region.along_cons, Region.next_quote hkind]
    exact ih h inside
  | case4 parts t ts hkind ih =>
    obtain ⟨others, hothers, rfl⟩ := map_eq_ok_iff.mp h
    rw [Region.along_cons, Option.isSome_none, Region.next_code hkind, inComment_cons]
    exact ih hothers _
  | case5 parts t ts mark hkind ih =>
    obtain ⟨others, hothers, rfl⟩ := map_eq_ok_iff.mp h
    -- A literal neither opens a comment nor ends one.
    have hliteral : Region.commented inside (merge .stringLiteral parts.reverse mark).kind =
        inside := by
      cases inside <;> rfl
    rw [Region.along_cons, Region.next_quote hkind, inComment_cons, hliteral]
    exact ih hothers inside
  | case6 parts t ts mark hkind ih =>
    rw [Region.along_cons, Option.isSome_some, Region.next_quoted hkind]
    exact ih h inside

/-- The pass over strings fails at a quote that is never closed, and nowhere else. -/
theorem quoted_of_joinStringsFrom {mark : Option Token} {parts ts : List Token} {e : CompileError}
    (h : joinStringsFrom mark parts ts = .error e) (inside : Bool) :
    (Region.along ⟨mark.isSome, inside⟩ ts).quoted = true ∧
      ∃ p, e = .malformed .unterminatedString (some p) := by
  fun_induction joinStringsFrom mark parts ts generalizing inside with
  | case1 => cases h
  | case2 parts mark => cases h; exact ⟨rfl, _, rfl⟩
  | case3 parts t ts hkind ih =>
    rw [Region.along_cons, Region.next_quote hkind]
    exact ih h inside
  | case4 parts t ts hkind ih =>
    rw [Region.along_cons, Option.isSome_none, Region.next_code hkind]
    exact ih (map_eq_error_iff.mp h) _
  | case5 parts t ts mark hkind ih =>
    rw [Region.along_cons, Region.next_quote hkind]
    exact ih (map_eq_error_iff.mp h) inside
  | case6 parts t ts mark hkind ih =>
    rw [Region.along_cons, Option.isSome_some, Region.next_quoted hkind]
    exact ih h inside

/-- The pass over comments works on the two sides of code separately. -/
theorem joinCommentsFrom_append {mark : Option Token} {parts ts : List Token}
    (h : inComment mark.isSome ts = false) (us : List Token) :
    joinCommentsFrom mark parts (ts ++ us) =
      joinCommentsFrom mark parts ts ++ joinComments us := by
  fun_induction joinCommentsFrom mark parts ts with
  | case1 parts => exact joinCommentsFrom_none parts us
  | case2 => cases h
  | case3 parts t ts hkind ih =>
    have hopens : Region.commented false t.kind = true := decide_eq_true hkind
    rw [inComment_cons, Option.isSome_none, hopens] at h
    rw [List.cons_append, joinCommentsFrom, if_pos hkind, ih h]
  | case4 parts t ts hkind ih =>
    have hcode : Region.commented false t.kind = false := decide_eq_false hkind
    rw [inComment_cons, Option.isSome_none, hcode] at h
    rw [List.cons_append, joinCommentsFrom, if_neg hkind, ih h, List.cons_append]
  | case5 parts t ts mark hkind ih =>
    have hends : Region.commented true t.kind = false := decide_eq_false (not_not_intro hkind)
    rw [inComment_cons, Option.isSome_some, hends] at h
    rw [List.cons_append, joinCommentsFrom, if_pos hkind, ih h, List.cons_append,
      List.cons_append]
  | case6 parts t ts mark hkind ih =>
    have hinside : Region.commented true t.kind = true := decide_eq_true hkind
    rw [inComment_cons, Option.isSome_some, hinside] at h
    rw [List.cons_append, joinCommentsFrom, if_neg hkind, ih h]

/-- The end of a line ends the comment on it, if there is one. -/
theorem joinCommentsFrom_lineEnd {mark : Option Token} {parts ts : List Token} {t : Token}
    (ht : t.kind = .newLine) (us : List Token) :
    joinCommentsFrom mark parts (ts ++ t :: us) =
      joinCommentsFrom mark parts ts ++ t :: joinComments us := by
  fun_induction joinCommentsFrom mark parts ts with
  | case1 parts =>
    rw [List.nil_append, joinCommentsFrom, if_neg (by simp [ht])]
    rfl
  | case2 parts mark =>
    rw [List.nil_append, joinCommentsFrom, if_pos ht]
    rfl
  | case3 parts u ts hkind ih =>
    rw [List.cons_append, joinCommentsFrom, if_pos hkind, ih]
  | case4 parts u ts hkind ih =>
    rw [List.cons_append, joinCommentsFrom, if_neg hkind, ih]
    rfl
  | case5 parts u ts mark hkind ih =>
    rw [List.cons_append, joinCommentsFrom, if_pos hkind, ih]
    rfl
  | case6 parts u ts mark hkind ih =>
    rw [List.cons_append, joinCommentsFrom, if_neg hkind, ih]

theorem joinStrings_of_along {ts : List Token} (h : (Region.along {} ts).quoted = false) :
    ∃ joined, joinStrings ts = .ok joined ∧
      inComment false joined = (Region.along {} ts).comment := by
  cases hstrings : joinStrings ts with
  | error e =>
    have hquoted : (Region.along {} ts).quoted = true :=
      (quoted_of_joinStringsFrom hstrings false).1
    rw [h] at hquoted
    cases hquoted
  | ok joined =>
    have hregion : Region.along {} ts = ⟨false, inComment false joined⟩ :=
      along_of_joinStringsFrom hstrings false
    exact ⟨joined, rfl, by rw [hregion]⟩

/-- Code in front is grouped by itself. -/
theorem group_append {ts : List Token} (h : Region.along {} ts = {}) :
    ∃ out, ∀ us, group (ts ++ us) = (group us).map (out ++ ·) := by
  obtain ⟨joined, hstrings, hinside⟩ := joinStrings_of_along (congrArg Region.quoted h)
  rw [h] at hinside
  refine ⟨joinComments joined, fun us => ?_⟩
  rw [group, group, joinStrings, joinStringsFrom_append hstrings]
  cases joinStrings us with
  | error e => rfl
  | ok others => exact congrArg Except.ok (@joinCommentsFrom_append none [] joined hinside others)

/-- What stands in front of the end of a line is grouped by itself. -/
theorem group_lineEnd {ts : List Token} {t : Token} (h : (Region.along {} ts).quoted = false)
    (ht : t.kind = .newLine) :
    ∃ out, ∀ us, group (ts ++ t :: us) = (group us).map (out ++ t :: ·) := by
  obtain ⟨joined, hstrings, -⟩ := joinStrings_of_along h
  refine ⟨joinComments joined, fun us => ?_⟩
  rw [group, group, joinStrings, joinStringsFrom_append hstrings, joinStrings, joinStringsFrom,
    if_neg (by rw [ht]; decide), joinStrings]
  cases joinStringsFrom none [] us with
  | error e => rfl
  | ok others => exact congrArg Except.ok (joinCommentsFrom_lineEnd ht others)

theorem group_cons {t : Token} (hquote : t.kind ≠ .stringLiteralMarker)
    (hhash : t.kind ≠ .startComment) (us : List Token) :
    group (t :: us) = (group us).map (t :: ·) := by
  rw [group, group, joinStrings, joinStringsFrom, if_neg hquote, joinStrings]
  cases joinStringsFrom none [] us with
  | error e => rfl
  | ok others =>
    refine congrArg Except.ok ?_
    rw [joinComments, joinCommentsFrom, if_neg hhash]
    rfl

theorem group_blanks {ws : List Token} (h : ∀ t ∈ ws, t.kind.isBlank = true) (us : List Token) :
    group (ws ++ us) = (group us).map (ws ++ ·) := by
  induction ws with
  | nil =>
    cases hgroup : group us with
    | error e => rw [List.nil_append, hgroup]; rfl
    | ok out => rw [List.nil_append, hgroup]; rfl
  | cons t ws ih =>
    obtain ⟨ht, hws⟩ := List.forall_mem_cons.mp h
    rw [List.cons_append, group_cons (Kind.ne_of_isBlank ht rfl) (Kind.ne_of_isBlank ht rfl),
      ih hws]
    cases group us <;> rfl

theorem joinStringsFrom_some {mark : Token} {parts ts out : List Token}
    (h : joinStringsFrom (some mark) parts ts = .ok out) :
    ∃ first rest, out = first :: rest ∧ first.kind = .stringLiteral := by
  induction ts generalizing parts with
  | nil => cases h
  | cons t ts ih =>
    rw [joinStringsFrom] at h
    split at h
    case isTrue =>
      obtain ⟨others, -, rfl⟩ := map_eq_ok_iff.mp h
      exact ⟨_, others, rfl, rfl⟩
    case isFalse => exact ih h

theorem joinCommentsFrom_some (mark : Token) (parts ts : List Token) :
    ∃ first rest, joinCommentsFrom (some mark) parts ts = first :: rest ∧
      first.kind = .comment := by
  induction ts generalizing parts with
  | nil => exact ⟨_, [], rfl, rfl⟩
  | cons t ts ih =>
    rw [joinCommentsFrom]
    split
    · exact ⟨_, _, rfl, rfl⟩
    · exact ih (t :: parts)

/-- The first group is the first token, unless it is a literal or a comment. -/
theorem group_cons_inv {ts out : List Token} {t : Token} (h : group ts = .ok (t :: out))
    (hliteral : t.kind ≠ .stringLiteral) (hcomment : t.kind ≠ .comment) :
    ∃ us, ts = t :: us ∧ group us = .ok out := by
  cases ts with
  | nil => cases h
  | cons u us =>
    by_cases hquote : u.kind = .stringLiteralMarker
    · obtain ⟨joined, hjoined, heq⟩ := map_eq_ok_iff.mp h
      rw [joinStrings, joinStringsFrom, if_pos hquote] at hjoined
      obtain ⟨first, rest, rfl, hfirst⟩ := joinStringsFrom_some hjoined
      rw [joinComments, joinCommentsFrom, if_neg (by rw [hfirst]; decide)] at heq
      rw [← (List.cons.inj heq).1] at hliteral
      exact absurd hfirst hliteral
    by_cases hhash : u.kind = .startComment
    · obtain ⟨joined, hjoined, heq⟩ := map_eq_ok_iff.mp h
      rw [joinStrings, joinStringsFrom, if_neg hquote] at hjoined
      obtain ⟨others, -, rfl⟩ := map_eq_ok_iff.mp hjoined
      obtain ⟨first, rest, hcomments, hfirst⟩ := joinCommentsFrom_some u [] others
      rw [joinComments, joinCommentsFrom, if_pos hhash, hcomments] at heq
      rw [← (List.cons.inj heq).1] at hcomment
      exact absurd hfirst hcomment
    · rw [group_cons hquote hhash] at h
      obtain ⟨others, hothers, heq⟩ := map_eq_ok_iff.mp h
      obtain ⟨rfl, rfl⟩ := List.cons.inj heq
      exact ⟨us, rfl, hothers⟩

end Token

end CheckedScript
