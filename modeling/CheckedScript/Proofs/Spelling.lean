import CheckedScript.Proofs.Lexing

/-!
How tokens spell out their source. Every character of a source belongs to the piece of one token,
or to a gap of blanks between two pieces, and a token is positioned by the text in front of its
piece. Each pass over the tokens keeps them in line with the text: `Tiles` says that a list of
tokens takes up a text piece by piece.

Main result:
* `Compiler.tokens_spell_source`: the tokens of a source in order, and their positions.
-/

namespace CheckedScript

/-! ## Positions -/

namespace Position

/-- The position right behind the text `cs` that a source starts with. -/
def behind (file : Option String) (cs : List Char) : Position where
  file
  line := 1 + cs.count '\n'
  column := 1 + (cs.reverse.takeWhile (· ≠ '\n')).length

theorem behind_concat (file : Option String) (cs : List Char) (c : Char) :
    behind file (cs ++ [c]) = (behind file cs).advance c := by
  by_cases h : c = '\n'
  · simp [behind, advance, h, Nat.add_assoc]
  · simp [behind, advance, h, Nat.add_assoc]

theorem start_after (file : Option String) (cs : List Char) :
    (start file).after cs = behind file cs := by
  induction cs using List.reverseRecOn with
  | nil => rfl
  | append_singleton cs c ih => rw [after_append, ih, behind_concat]; rfl

theorem behind_append (file : Option String) (cs ds : List Char) :
    behind file (cs ++ ds) = (behind file cs).after ds := by
  rw [← start_after, ← start_after, after_append]

/-- On an earlier line, or further left on the same one. -/
def Before (p q : Position) : Prop := p.line < q.line ∨ p.line = q.line ∧ p.column < q.column

theorem Before.trans {p q r : Position} (h : p.Before q) (h' : q.Before r) : p.Before r := by
  unfold Before at *
  omega

theorem before_advance (p : Position) (c : Char) : p.Before (p.advance c) := by
  unfold Before advance
  split
  · exact .inl (Nat.lt_succ_self _)
  · exact .inr ⟨rfl, Nat.lt_succ_self _⟩

theorem before_after (p : Position) {cs : List Char} (h : cs ≠ []) : p.Before (p.after cs) := by
  induction cs generalizing p with
  | nil => exact absurd rfl h
  | cons c cs ih =>
    by_cases hcs : cs = []
    · subst hcs
      exact before_advance p c
    · exact (before_advance p c).trans (ih _ hcs)

end Position

namespace Token

/-! ## Texts of classified fragments -/

/-- The texts that rules for a single text give this kind. -/
def Kind.spellings (kind : Kind) : List String :=
  Rule.standard.filterMap fun rule => match rule.test with
    | .exact text => if rule.kind = kind then some text else none
    | .pattern _ => none

theorem mem_spellings_of_classify {text : String} {kind : Kind}
    (h : classify Rule.standard text = kind) (hname : kind ≠ .identifier)
    (hknown : kind ≠ .unknown) : text ∈ kind.spellings := by
  have hrules : ∀ rule ∈ Rule.standard,
      rule.kind = .identifier ∨ ∃ expected, rule.test = .exact expected := by
    simp [Rule.standard, Rule.exact]
  rw [classify] at h
  split at h
  case h_1 rule hfind =>
    have hmem := List.mem_of_find?_eq_some hfind
    have haccepts := List.find?_some hfind
    obtain hkind | ⟨expected, htest⟩ := hrules rule hmem
    · exact absurd (h.symm.trans hkind) hname
    · rw [htest, Test.accepts, decide_eq_true_eq] at haccepts
      subst haccepts
      exact List.mem_filterMap.mpr ⟨rule, hmem, by rw [htest]; exact if_pos h⟩
  case h_2 => exact absurd h.symm hknown

theorem Kind.ne_of_spellings {kind other : Kind} {text : String} (h : kind.spellings = [text])
    (hnone : other.spellings = []) : kind ≠ other := by
  rintro rfl
  rw [hnone] at h
  cases h

/-- A kind with one spelling has one text only. -/
theorem eq_of_spellings {text expected : String}
    (h : (classify Rule.standard text).spellings = [expected]) : text = expected := by
  have hmem : text ∈ (classify Rule.standard text).spellings :=
    mem_spellings_of_classify rfl (Kind.ne_of_spellings h rfl) (Kind.ne_of_spellings h rfl)
  rwa [h, List.mem_singleton] at hmem

/-! ## Tiling -/

/-- The tokens take up the text from `p` on, one piece after the other, each with a piece that
`R` allows at its place. -/
inductive Tiles (R : Token → Position → List Char → Prop) :
    Position → List Token → List Char → Prop
  | nil {p : Position} : Tiles R p [] []
  | cons {p : Position} {t : Token} {ts : List Token} {piece rest : List Char}
      (first : R t p piece) (others : Tiles R (p.after piece) ts rest) :
      Tiles R p (t :: ts) (piece ++ rest)

namespace Tiles

variable {R : Token → Position → List Char → Prop} {p : Position} {ts us : List Token}
  {cs ds : List Char}

theorem append (h : Tiles R p ts cs) (h' : Tiles R (p.after cs) us ds) :
    Tiles R p (ts ++ us) (cs ++ ds) := by
  induction h with
  | nil => exact h'
  | cons first _ ih =>
    rw [List.cons_append, List.append_assoc]
    rw [Position.after_append] at h'
    exact .cons first (ih h')

theorem singleton {t : Token} {piece : List Char} (h : R t p piece) : Tiles R p [t] piece := by
  have := Tiles.cons h (Tiles.nil (p := p.after piece))
  rwa [List.append_nil] at this

theorem forall_mem {P : Char → Prop} (hR : ∀ t p piece, R t p piece → ∀ c ∈ piece, P c)
    (h : Tiles R p ts cs) : ∀ c ∈ cs, P c := by
  induction h with
  | nil => simp
  | cons first _ ih => exact List.forall_mem_append.mpr ⟨hR _ _ _ first, ih⟩

theorem cons_inv {t : Token} (h : Tiles R p (t :: ts) cs) :
    ∃ piece rest, cs = piece ++ rest ∧ R t p piece ∧ Tiles R (p.after piece) ts rest := by
  cases h with
  | cons first others => exact ⟨_, _, rfl, first, others⟩

end Tiles

/-- A token made of one fragment. -/
structure IsFragment (t : Token) (p : Position) (piece : List Char) : Prop where
  isPiece : Fragment.IsPiece piece
  text : t.text.toList = piece
  kind : classify Rule.standard t.text = t.kind
  position : t.position = p

theorem tiles_place {pieces : List (List Char)} (h : ∀ piece ∈ pieces, Fragment.IsPiece piece)
    (p : Position) :
    Tiles IsFragment p ((Fragment.place p pieces).map (ofFragment Rule.standard))
      pieces.flatten := by
  induction pieces generalizing p with
  | nil => exact .nil
  | cons piece pieces ih =>
    obtain ⟨hfirst, hrest⟩ := List.forall_mem_cons.mp h
    exact .cons ⟨hfirst, String.toList_ofList, rfl, rfl⟩ (ih hrest _)

theorem tiles_ofSource (file : Option String) (source : String) :
    Tiles IsFragment (Position.start file)
      ((Fragment.ofSource file source).map (ofFragment Rule.standard)) source.toList := by
  have h := tiles_place (fun _ => @Fragment.isPiece_of_mem_split source.toList _)
    (Position.start file)
  rwa [Fragment.split_flatten] at h

/-! ## String literals -/

/-- A fragment that is no quotation mark. -/
def IsWord (t : Token) (p : Position) (piece : List Char) : Prop :=
  IsFragment t p piece ∧ t.kind ≠ .stringLiteralMarker

/-- A token of the strings pass: a fragment, or the text between two quotes. -/
inductive Joined (t : Token) (p : Position) : List Char → Prop
  | word {piece : List Char} (h : IsWord t p piece) : Joined t p piece
  | literal (kind : t.kind = .stringLiteral) (plain : IsPlain t.text)
      (position : t.position = if t.text = "" then p else p.advance '"') :
      Joined t p ('"' :: (t.text.toList ++ ['"']))

theorem IsFragment.piece_ne_nil {t : Token} {p : Position} {piece : List Char}
    (h : IsFragment t p piece) : piece ≠ [] := by
  obtain ⟨c, -, hc⟩ | ⟨hne, -⟩ := h.isPiece
  · rw [hc]
    exact List.cons_ne_nil _ _
  · exact hne

/-- A word has no quote in its text. -/
theorem IsWord.plain {t : Token} {p : Position} {piece : List Char} (h : IsWord t p piece) :
    '"' ∉ piece := by
  obtain ⟨⟨hpiece, htext, hkind, -⟩, hmark⟩ := h
  have heq : ofFragment Rule.standard ⟨t.text, t.position⟩ = t := by
    rw [ofFragment, hkind]
  have hclean := @clean_ofFragment ⟨t.text, t.position⟩ (htext.symm ▸ hpiece) (heq.symm ▸ hmark)
  rw [heq] at hclean
  rw [← htext]
  exact hclean.plain

/-- What a pass holds back: nothing, or a mark at `p`, spelled `c`, and the tokens behind it,
last first. -/
inductive Pending (R : Token → Position → List Char → Prop) (c : Char) :
    Option Token → List Token → Position → List Char → Prop
  | closed {p : Position} : Pending R c none [] p []
  | opened {mark : Token} {parts : List Token} {inner : List Char}
      (tiles : Tiles R (mark.position.advance c) parts.reverse inner) :
      Pending R c (some mark) parts mark.position (c :: inner)

theorem Pending.push {R : Token → Position → List Char → Prop} {c : Char} {mark t : Token}
    {parts : List Token} {p : Position} {cs piece : List Char}
    (h : Pending R c (some mark) parts p cs) (ht : R t (p.after cs) piece) :
    Pending R c (some mark) (t :: parts) p (cs ++ piece) := by
  cases h with
  | opened tiles =>
    refine .opened ?_
    rw [List.reverse_cons]
    exact tiles.append (.singleton ht)

/-- Merged tokens have the text that their pieces have once `f` has been applied to them. -/
theorem Tiles.text_merge {R : Token → Position → List Char → Prop} {f : List Char → List Char}
    (hnil : f [] = []) (happend : ∀ cs ds, f (cs ++ ds) = f cs ++ f ds)
    (htext : ∀ t p piece, R t p piece → t.text.toList = f piece) {p : Position}
    {parts : List Token} {cs : List Char} (h : Tiles R p parts cs) (kind : Kind) (mark : Token) :
    (merge kind parts mark).text.toList = f cs := by
  rw [merge]
  induction h with
  | nil => rw [hnil]; rfl
  | cons first _ ih =>
    rw [List.map_cons, String.join_cons, String.toList_append, ih, htext _ _ _ first, happend]

theorem joined_merge {mark : Token} {parts : List Token} {inner : List Char}
    (h : Tiles IsWord (mark.position.advance '"') parts inner) :
    Joined (merge .stringLiteral parts mark) mark.position ('"' :: (inner ++ ['"'])) := by
  have htext : (merge .stringLiteral parts mark).text.toList = inner :=
    h.text_merge (f := id) rfl (fun _ _ => rfl) (fun _ _ _ hword => hword.1.text) _ _
  have hplain : IsPlain (merge .stringLiteral parts mark).text := by
    intro hquote
    rw [htext] at hquote
    have hne : ∀ c ∈ inner, c ≠ '"' :=
      h.forall_mem fun _ _ _ hword c hc heq => hword.plain (heq ▸ hc)
    exact hne _ hquote rfl
  rw [← htext]
  refine .literal rfl hplain ?_
  cases h with
  | nil => rfl
  | cons first others =>
    -- The first word has characters, so the text is not empty.
    rw [if_neg]
    · exact first.1.position
    · intro hempty
      rw [hempty] at htext
      exact first.1.piece_ne_nil (List.append_eq_nil_iff.mp htext.symm).1

theorem IsFragment.text_eq {t : Token} {p : Position} {piece : List Char}
    (h : IsFragment t p piece) {text : String} (htext : t.kind.spellings = [text]) :
    t.text = text := by
  rw [← h.kind] at htext
  exact eq_of_spellings htext

theorem IsFragment.piece_eq {t : Token} {p : Position} {piece : List Char}
    (h : IsFragment t p piece) {text : String} (htext : t.kind.spellings = [text]) :
    piece = text.toList := by
  rw [← h.text, h.text_eq htext]

theorem piece_of_quote {t : Token} {p : Position} {piece : List Char} (h : IsFragment t p piece)
    (hkind : t.kind = .stringLiteralMarker) : piece = ['"'] :=
  h.piece_eq (show t.kind.spellings = ["\""] by rw [hkind]; rfl)

/-- The strings pass keeps the tokens in line with the text. -/
theorem tiles_joinStringsFrom {mark : Option Token} {parts ts out : List Token} {p : Position}
    {held cs : List Char} (hheld : Pending IsWord '"' mark parts p held)
    (hts : Tiles IsFragment (p.after held) ts cs) (h : joinStringsFrom mark parts ts = .ok out) :
    Tiles Joined p out (held ++ cs) := by
  fun_induction joinStringsFrom mark parts ts generalizing p held cs out with
  | case1 =>
    cases h
    cases hheld
    cases hts
    exact .nil
  | case2 => cases h
  | case3 parts t ts hkind ih =>
    cases hheld
    obtain ⟨piece, rest, rfl, ht, hts⟩ := hts.cons_inv
    obtain rfl := piece_of_quote ht hkind
    obtain rfl : t.position = p := ht.position
    have hopened : Pending IsWord '"' (some t) [] t.position ['"'] := .opened .nil
    have htiles := ih hopened hts h
    exact htiles
  | case4 parts t ts hkind ih =>
    cases hheld
    obtain ⟨piece, rest, rfl, ht, hts⟩ := hts.cons_inv
    obtain ⟨others, hothers, rfl⟩ := map_eq_ok_iff.mp h
    rw [List.nil_append]
    exact .cons (.word ⟨ht, hkind⟩) (ih .closed hts hothers)
  | case5 parts t ts mark hkind ih =>
    obtain ⟨piece, rest, rfl, ht, hts⟩ := hts.cons_inv
    obtain rfl := piece_of_quote ht hkind
    obtain ⟨others, hothers, rfl⟩ := map_eq_ok_iff.mp h
    cases hheld with
    | opened tiles =>
      rw [← List.append_assoc, List.cons_append]
      refine .cons (joined_merge tiles) (ih .closed ?_ hothers)
      rw [← Position.after_append] at hts
      exact hts
  | case6 parts t ts mark hkind ih =>
    obtain ⟨piece, rest, rfl, ht, hts⟩ := hts.cons_inv
    rw [← List.append_assoc]
    refine ih (hheld.push ⟨ht, hkind⟩) ?_ h
    rw [Position.after_append]
    exact hts

/-! ## Comments and array types -/

/-- A token of the passes over comments and array types. -/
inductive Laid (t : Token) (p : Position) : List Char → Prop
  | joined {piece : List Char} (h : Joined t p piece) (mark : t.kind ≠ .startComment) :
      Laid t p piece
  | comment {cs front back : List Char} (kind : t.kind = .comment)
      (text : t.text.toList = cs.filter (· ≠ '"')) (inside : '#' :: cs = front ++ back)
      (ne : back ≠ []) (position : t.position = p.after front) : Laid t p ('#' :: cs)
  | arrayType (kind : t.kind = .stringArrayType) (text : t.text = "[]string")
      (position : t.position = p) : Laid t p t.text.toList

/-- A literal stands at its opening quote if it is empty, else at the character behind it. -/
theorem literal_inside {t : Token} {p : Position}
    (h : t.position = if t.text = "" then p else p.advance '"') :
    ∃ front back, '"' :: (t.text.toList ++ ['"']) = front ++ back ∧ back ≠ [] ∧
      t.position = p.after front := by
  split at h
  case isTrue => exact ⟨[], _, rfl, List.cons_ne_nil _ _, h⟩
  case isFalse => exact ⟨['"'], _, rfl, by simp, h⟩

namespace Joined

variable {t : Token} {p : Position} {piece : List Char}

theorem text_eq (h : Joined t p piece) : t.text.toList = piece.filter (· ≠ '"') := by
  cases h with
  | word h =>
    rw [h.1.text, List.filter_eq_self.mpr]
    intro c hc
    exact decide_eq_true fun heq => h.plain (heq ▸ hc)
  | literal _ plain _ =>
    have hfilter : t.text.toList.filter (· ≠ '"') = t.text.toList := by
      refine List.filter_eq_self.mpr fun c hc => ?_
      exact decide_eq_true fun heq => plain (heq ▸ hc)
    rw [List.filter_cons_of_neg (by simp), List.filter_append, hfilter]
    simp

/-- The position is that of a character of the piece. -/
theorem inside (h : Joined t p piece) :
    ∃ front back, piece = front ++ back ∧ back ≠ [] ∧ t.position = p.after front := by
  cases h with
  | word h => exact ⟨[], piece, rfl, h.1.piece_ne_nil, h.1.position⟩
  | literal _ _ hposition => exact literal_inside hposition

theorem isFragment (h : Joined t p piece) (hkind : t.kind ≠ .stringLiteral) :
    IsFragment t p piece := by
  cases h with
  | word h => exact h.1
  | literal kind => exact absurd kind hkind

end Joined

theorem laid_merge {mark : Token} {parts : List Token} {inner : List Char}
    (h : Tiles Joined (mark.position.advance '#') parts inner) :
    Laid (merge .comment parts mark) mark.position ('#' :: inner) := by
  have htext : (merge .comment parts mark).text.toList = inner.filter (· ≠ '"') :=
    h.text_merge (f := List.filter (· ≠ '"')) rfl (fun _ _ => List.filter_append ..)
      (fun _ _ _ hjoined => hjoined.text_eq) _ _
  cases h with
  | nil => exact .comment rfl htext (List.nil_append _).symm (List.cons_ne_nil _ _) rfl
  | @cons _ _ _ piece rest first others =>
    obtain ⟨front, back, rfl, hne, hposition⟩ := first.inside
    have hinside : '#' :: (front ++ back ++ rest) = '#' :: front ++ (back ++ rest) :=
      List.append_assoc ('#' :: front) back rest
    exact .comment rfl htext hinside (List.append_ne_nil_of_left_ne_nil hne rest) hposition

theorem piece_of_hash {t : Token} {p : Position} {piece : List Char} (h : IsFragment t p piece)
    (hkind : t.kind = .startComment) : piece = ['#'] :=
  h.piece_eq (show t.kind.spellings = ["#"] by rw [hkind]; rfl)

/-- The comments pass keeps the tokens in line with the text. -/
theorem tiles_joinCommentsFrom {mark : Option Token} {parts ts : List Token} {p : Position}
    {held cs : List Char} (hheld : Pending Joined '#' mark parts p held)
    (hts : Tiles Joined (p.after held) ts cs) :
    Tiles Laid p (joinCommentsFrom mark parts ts) (held ++ cs) := by
  fun_induction joinCommentsFrom mark parts ts generalizing p held cs with
  | case1 =>
    cases hheld
    cases hts
    exact .nil
  | case2 parts mark =>
    cases hts
    cases hheld with
    | opened tiles =>
      rw [List.append_nil]
      exact .singleton (laid_merge tiles)
  | case3 parts t ts hkind ih =>
    cases hheld
    obtain ⟨piece, rest, rfl, ht, hts⟩ := hts.cons_inv
    have hfragment := ht.isFragment (by rw [hkind]; decide)
    obtain rfl := piece_of_hash hfragment hkind
    obtain rfl : t.position = p := hfragment.position
    have hopened : Pending Joined '#' (some t) [] t.position ['#'] := .opened .nil
    have htiles := ih hopened hts
    exact htiles
  | case4 parts t ts hkind ih =>
    cases hheld
    obtain ⟨piece, rest, rfl, ht, hts⟩ := hts.cons_inv
    rw [List.nil_append]
    exact .cons (.joined ht hkind) (ih .closed hts)
  | case5 parts t ts mark hkind ih =>
    obtain ⟨piece, rest, rfl, ht, hts⟩ := hts.cons_inv
    cases hheld with
    | opened tiles =>
      refine .cons (laid_merge tiles) (.cons (.joined ht ?_) (ih .closed hts))
      rw [hkind]
      decide
  | case6 parts t ts mark hkind ih =>
    obtain ⟨piece, rest, rfl, ht, hts⟩ := hts.cons_inv
    rw [← List.append_assoc]
    refine ih (hheld.push ht) ?_
    rw [Position.after_append]
    exact hts

theorem Laid.isFragment {t : Token} {p : Position} {piece : List Char} (h : Laid t p piece)
    (hliteral : t.kind ≠ .stringLiteral) (hcomment : t.kind ≠ .comment)
    (harray : t.kind ≠ .stringArrayType) : IsFragment t p piece := by
  cases h with
  | joined h => exact h.isFragment hliteral
  | comment kind => exact absurd kind hcomment
  | arrayType kind => exact absurd kind harray

/-- The array types pass keeps the tokens in line with the text. -/
theorem tiles_joinArrayTypes {ts : List Token} {p : Position} {cs : List Char}
    (h : Tiles Laid p ts cs) : Tiles Laid p (joinArrayTypes ts) cs := by
  fun_induction joinArrayTypes ts generalizing p cs with
  | case1 a b c ts hkinds ih =>
    obtain ⟨ha, hb, hc⟩ := hkinds
    obtain ⟨piece, rest, rfl, hfirst, h⟩ := h.cons_inv
    obtain ⟨piece', rest, rfl, hsecond, h⟩ := h.cons_inv
    obtain ⟨piece'', rest, rfl, hthird, h⟩ := h.cons_inv
    have hfirst := hfirst.isFragment (by simp [ha]) (by simp [ha]) (by simp [ha])
    have hsecond := hsecond.isFragment (by simp [hb]) (by simp [hb]) (by simp [hb])
    have hthird := hthird.isFragment (by simp [hc]) (by simp [hc]) (by simp [hc])
    have hopen : a.text = "[" := hfirst.text_eq (by rw [ha]; rfl)
    have hclose : b.text = "]" := hsecond.text_eq (by rw [hb]; rfl)
    have hstring : c.text = "string" := hthird.text_eq (by rw [hc]; rfl)
    have htext : (merge .stringArrayType [a, b, c] a).text = "[]string" := by
      rw [merge, List.map_cons, List.map_cons, List.map_singleton, hopen, hclose, hstring]
      rfl
    have hpieces : (merge .stringArrayType [a, b, c] a).text.toList
        = piece ++ (piece' ++ piece'') := by
      rw [htext, ← hfirst.text, ← hsecond.text, ← hthird.text, hopen, hclose, hstring]
      rfl
    rw [← List.append_assoc piece', ← List.append_assoc piece, ← hpieces]
    refine .cons (.arrayType rfl htext hfirst.position) (ih ?_)
    rwa [hpieces, Position.after_append, Position.after_append]
  | case2 a b c ts _ ih =>
    obtain ⟨piece, rest, rfl, hfirst, h⟩ := h.cons_inv
    exact .cons hfirst (ih h)
  | case3 t ts _ ih =>
    obtain ⟨piece, rest, rfl, hfirst, h⟩ := h.cons_inv
    exact .cons hfirst (ih h)
  | case4 => exact h

/-! ## Gaps and line ends -/

/-- Kinds that the passes use up: none of them reaches the grammar. -/
def Kind.consumed : List Kind := [.whitespace, .newLine, .stringLiteralMarker, .startComment]

/-- The characters that may stand between two pieces. -/
def layoutChars : List Char := [' ', '\t', '\r', '\n']

/-- How a token of a source is spelled by the piece at `p`. -/
inductive Spells (t : Token) (p : Position) : List Char → Prop
  | literal (kind : t.kind = .stringLiteral)
      (position : t.position = if t.text = "" then p else p.advance '"') :
      Spells t p ('"' :: (t.text.toList ++ ['"']))
  | comment {cs front back : List Char} (kind : t.kind = .comment)
      (text : t.text.toList = cs.filter (· ≠ '"')) (inside : '#' :: cs = front ++ back)
      (ne : back ≠ []) (position : t.position = p.after front) : Spells t p ('#' :: cs)
  | lineEnd (kind : t.kind = .semicolon) (text : t.text = ";") (position : t.position = p) :
      Spells t p ['\n']
  | word (kind : t.kind ∉ .stringLiteral :: .comment :: Kind.consumed) (ne : t.text ≠ "")
      (position : t.position = p) : Spells t p t.text.toList

/-- The tokens spell out a text that has `before` in front of it in the source: a piece for each,
in order, with layout in the gaps. -/
inductive Spelled (file : Option String) : List Char → List Token → List Char → Prop
  | done {before gap : List Char} (blank : ∀ c ∈ gap, c ∈ layoutChars) :
      Spelled file before [] gap
  | token {before gap piece rest : List Char} {t : Token} {ts : List Token}
      (blank : ∀ c ∈ gap, c ∈ layoutChars)
      (first : Spells t (Position.behind file (before ++ gap)) piece)
      (others : Spelled file (before ++ gap ++ piece) ts rest) :
      Spelled file before (t :: ts) (gap ++ piece ++ rest)

theorem Spells.kind_not_mem {t : Token} {p : Position} {piece : List Char}
    (h : Spells t p piece) : t.kind ∉ Kind.consumed := by
  cases h with
  | literal kind => rw [kind]; decide
  | comment kind => rw [kind]; decide
  | lineEnd kind => rw [kind]; decide
  | word kind => exact fun hmem => kind (.tail _ (.tail _ hmem))

/-- The position is that of a character of the piece. -/
theorem Spells.inside {t : Token} {p : Position} {piece : List Char} (h : Spells t p piece) :
    ∃ front back, piece = front ++ back ∧ back ≠ [] ∧ t.position = p.after front := by
  cases h with
  | literal _ hposition => exact literal_inside hposition
  | comment _ _ hinside hne hposition => exact ⟨_, _, hinside, hne, hposition⟩
  | lineEnd _ _ hposition => exact ⟨[], _, rfl, List.cons_ne_nil _ _, hposition⟩
  | word _ hne hposition =>
    exact ⟨[], _, rfl, fun hempty => hne (String.toList_inj.mp hempty), hposition⟩

namespace Spelled

variable {file : Option String} {before cs : List Char} {ts : List Token}

theorem blank_cons {c : Char} (hc : c ∈ layoutChars) (h : Spelled file (before ++ [c]) ts cs) :
    Spelled file before ts (c :: cs) := by
  cases h with
  | done blank => exact .done (List.forall_mem_cons.mpr ⟨hc, blank⟩)
  | @token _ gap piece rest t ts blank first others =>
    have hbefore : before ++ [c] ++ gap = before ++ c :: gap := by simp
    rw [hbefore] at first others
    exact .token (List.forall_mem_cons.mpr ⟨hc, blank⟩) first others

/-- Every token stands at a character of the text. -/
theorem position_mem (h : Spelled file before ts cs) :
    ∀ t ∈ ts, ∃ front, t.position = (Position.behind file before).after front := by
  induction h with
  | done => simp
  | @token before gap piece rest t ts blank first others ih =>
    intro u hu
    obtain rfl | hu := List.mem_cons.mp hu
    · obtain ⟨front, back, -, -, hposition⟩ := first.inside
      refine ⟨gap ++ front, ?_⟩
      rw [hposition, Position.behind_append, Position.after_append]
    · obtain ⟨front, hposition⟩ := ih u hu
      refine ⟨gap ++ piece ++ front, ?_⟩
      rw [hposition, Position.behind_append, Position.behind_append, Position.after_append,
        Position.after_append]

theorem pairwise_before (h : Spelled file before ts cs) :
    ts.Pairwise fun t u => t.position.Before u.position := by
  induction h with
  | done => exact .nil
  | token _ first others ih =>
    refine .cons (fun u hu => ?_) ih
    -- The first token leaves some of its piece between its position and the next ones.
    obtain ⟨front, back, rfl, hne, hfirst⟩ := first.inside
    obtain ⟨front', hposition⟩ := others.position_mem u hu
    rw [hposition, Position.behind_append, Position.after_append, ← hfirst,
      ← Position.after_append]
    exact Position.before_after _ (List.append_ne_nil_of_left_ne_nil hne front')

theorem kind_not_mem (h : Spelled file before ts cs) : ∀ t ∈ ts, t.kind ∉ Kind.consumed := by
  induction h with
  | done => simp
  | token _ first _ ih => exact List.forall_mem_cons.mpr ⟨first.kind_not_mem, ih⟩

end Spelled

/-- No rule gives a kind that only a pass makes. -/
theorem IsFragment.kind_ne {t : Token} {p : Position} {piece : List Char}
    (h : IsFragment t p piece) : t.kind ≠ .stringLiteral ∧ t.kind ≠ .comment := by
  have hspelled : ∀ kind : Kind, t.kind = kind → kind.spellings = [] →
      kind = .identifier ∨ kind = .unknown := by
    intro kind hkind hnone
    by_contra hother
    obtain ⟨hname, hknown⟩ := not_or.mp hother
    have hmem := mem_spellings_of_classify (h.kind.trans hkind) hname hknown
    rw [hnone] at hmem
    cases hmem
  refine ⟨fun hkind => ?_, fun hkind => ?_⟩
  · simpa using hspelled _ hkind rfl
  · simpa using hspelled _ hkind rfl

theorem Kind.isBlank_iff {kind : Kind} :
    kind.isBlank = true ↔ kind = .whitespace ∨ kind = .newLine := by
  cases kind <;> simp [Kind.isBlank]

theorem Kind.ne_of_isBlank {kind other : Kind} (h : kind.isBlank = true)
    (hother : other.isBlank = false) : kind ≠ other := by
  rintro rfl
  rw [hother] at h
  cases h

theorem Laid.spells {t : Token} {p : Position} {piece : List Char} (h : Laid t p piece)
    (hblank : ¬t.kind.isBlank = true) : Spells t p piece := by
  cases h with
  | joined h hmark =>
    cases h with
    | word h =>
      obtain ⟨hfragment, hquote⟩ := h
      obtain ⟨hliteral, hcomment⟩ := hfragment.kind_ne
      rw [Kind.isBlank_iff, not_or] at hblank
      rw [← hfragment.text]
      refine .word ?_ ?_ hfragment.position
      · simp [Kind.consumed, hliteral, hcomment, hquote, hmark, hblank]
      · intro hempty
        exact hfragment.piece_ne_nil (by rw [← hfragment.text, hempty]; rfl)
    | literal kind _ hposition => exact .literal kind hposition
  | comment kind text inside ne position => exact .comment kind text inside ne position
  | arrayType kind text position =>
    refine .word ?_ ?_ position
    · rw [kind]; decide
    · rw [text]; decide

theorem Laid.layout {t : Token} {p : Position} {piece : List Char} (h : Laid t p piece)
    (hblank : t.kind.isBlank = true) : ∃ c ∈ layoutChars, piece = [c] := by
  have hne : ∀ kind : Kind, kind.isBlank = false → t.kind ≠ kind :=
    fun _ => Kind.ne_of_isBlank hblank
  have hfragment := h.isFragment (hne _ rfl) (hne _ rfl) (hne _ rfl)
  have hmem := mem_spellings_of_classify hfragment.kind (hne _ rfl) (hne _ rfl)
  have hspellings : ∀ text ∈ t.kind.spellings, ∃ c ∈ layoutChars, text.toList = [c] := by
    obtain hkind | hkind := Kind.isBlank_iff.mp hblank
    · rw [hkind, show Kind.spellings .whitespace = [" ", "\t", "\r"] by rfl]
      simp [layoutChars]
    · rw [hkind, show Kind.spellings .newLine = ["\n"] by rfl]
      simp [layoutChars]
  obtain ⟨c, hc, htext⟩ := hspellings _ hmem
  exact ⟨c, hc, hfragment.text ▸ htext⟩

theorem piece_of_lineEnd {t : Token} {p : Position} {piece : List Char} (h : Laid t p piece)
    (hkind : t.kind = .newLine) : piece = ['\n'] ∧ t.position = p := by
  have hfragment := h.isFragment (by simp [hkind]) (by simp [hkind]) (by simp [hkind])
  exact ⟨hfragment.piece_eq (show t.kind.spellings = ["\n"] by rw [hkind]; rfl),
    hfragment.position⟩

/-- Line ends become semicolons or fall into the gaps, as other blanks do. -/
theorem spelled_endStatementsAfter {file : Option String} {previous : Option Kind}
    {ts : List Token} {before cs : List Char}
    (h : Tiles Laid (Position.behind file before) ts cs) :
    Spelled file before (dropBlanks (endStatementsAfter previous ts)) cs := by
  induction ts generalizing previous before cs with
  | nil =>
    cases h
    exact .done (by simp)
  | cons t ts ih =>
    obtain ⟨piece, rest, rfl, ht, h⟩ := h.cons_inv
    rw [← Position.behind_append] at h
    -- A token that is kept has no gap in front of it: gaps grow at the blanks.
    have hkept : ∀ (u : Token) (previous : Option Kind), ¬u.kind.isBlank = true →
        Spells u (Position.behind file before) piece →
        Spelled file before (dropBlanks (u :: endStatementsAfter previous ts))
          (piece ++ rest) := by
      intro u previous hblank hspells
      rw [dropBlanks, List.filter_cons_of_pos (by simpa using hblank)]
      refine @Spelled.token file before [] piece rest u _ (by simp) ?_ ?_
      · rwa [List.append_nil]
      · rw [List.append_nil]
        exact ih h
    have hdropped : ∀ previous : Option Kind, t.kind.isBlank = true →
        Spelled file before (dropBlanks (t :: endStatementsAfter previous ts))
          (piece ++ rest) := by
      intro previous hblank
      obtain ⟨c, hc, rfl⟩ := ht.layout hblank
      rw [dropBlanks, List.filter_cons_of_neg (by simpa using hblank)]
      exact (ih h).blank_cons hc
    rw [endStatementsAfter]
    split
    case h_1 hkind => exact hdropped _ (Kind.isBlank_iff.mpr (.inl hkind))
    case h_2 hkind =>
      split
      case isTrue => exact hdropped _ (Kind.isBlank_iff.mpr (.inr hkind))
      case isFalse =>
        obtain ⟨rfl, hposition⟩ := piece_of_lineEnd ht hkind
        exact hkept _ _ (by simp [Kind.isBlank]) (.lineEnd rfl rfl hposition)
    case h_3 hspace hline =>
      have hblank : ¬t.kind.isBlank = true := by
        rw [Kind.isBlank_iff]
        exact not_or.mpr ⟨hspace, hline⟩
      exact hkept _ _ hblank (ht.spells hblank)

end Token

namespace Compiler

open Token (Kind Spelled)

/-- The tokens of a source spell it out in order, with nothing but layout between them, and stand
where their pieces do. -/
theorem tokens_spell_source {file : Option String} {source : String} {ts : List Token}
    (h : (tokens file source).result = .ok ts) :
    Spelled file [] ts source.toList ∧
      (ts.Pairwise fun t u => t.position.Before u.position) ∧
      ∀ t ∈ ts, t.kind ∉ [Kind.whitespace, .newLine, .stringLiteralMarker, .startComment] := by
  rw [result_tokens] at h
  obtain ⟨joined, hjoined, rfl⟩ := map_eq_ok_iff.mp h
  have hstrings := Token.tiles_joinStringsFrom .closed (Token.tiles_ofSource file source) hjoined
  have hcomments := Token.tiles_joinCommentsFrom .closed hstrings
  have hspelled := @Token.spelled_endStatementsAfter file none _ [] _
    (Token.tiles_joinArrayTypes hcomments)
  exact ⟨hspelled, hspelled.pairwise_before, hspelled.kind_not_mem⟩

/-- Quotes in a comment, an empty literal, an array type and a line end that closes a statement. -/
theorem tokens_spell_sample :
    ∃ ts, (tokens none "[]string\t\"\" \"a b\" # c\"d\"\n").result = .ok ts ∧
      ts.map (fun t => (t.text, t.position.line, t.position.column)) =
        [("[]string", 1, 1), ("", 1, 10), ("a b", 1, 14), (" cd", 1, 20), (";", 1, 25)] ∧
      Spelled none [] ts "[]string\t\"\" \"a b\" # c\"d\"\n".toList := by
  have h : (tokens none "[]string\t\"\" \"a b\" # c\"d\"\n").result =
      .ok [⟨.stringArrayType, "[]string", {}⟩, ⟨.stringLiteral, "", { column := 10 }⟩,
        ⟨.stringLiteral, "a b", { column := 14 }⟩, ⟨.comment, " cd", { column := 20 }⟩,
        ⟨.semicolon, ";", { column := 25 }⟩] := by cbv
  exact ⟨_, h, by decide, (tokens_spell_source h).1⟩

end Compiler

end CheckedScript
