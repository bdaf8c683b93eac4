import CheckedScript.Compiler
import CheckedScript.Proofs.Regex
import CheckedScript.Proofs.Result

/-!
What the tokens of a source look like: a quote stands in no text, since it is a fragment by
itself and pairs of quotes become string literals, and identifiers are names that are no
keywords. Each pass over the tokens preserves this.

Main results:
* `Compiler.forall_mem_tokens`: what every pass keeps holds of the tokens of a source.
* `Compiler.clean_of_tokens`: texts without quotes, and identifiers.
-/

namespace CheckedScript

/-! ## Fragments -/

namespace Fragment

/-- A separator by itself, or a run of characters that are none. -/
def IsPiece (cs : List Char) : Prop :=
  (∃ c, isSeparator c = true ∧ cs = [c]) ∨ cs ≠ [] ∧ ∀ c ∈ cs, isSeparator c = false

theorem isPiece_singleton (c : Char) : IsPiece [c] := by
  cases h : isSeparator c with
  | true => exact .inl ⟨c, h, rfl⟩
  | false => exact .inr (by simp [h])

theorem isPiece_of_mem_attach {c : Char} {pieces : List (List Char)}
    (h : ∀ cs ∈ pieces, IsPiece cs) {cs : List Char} (hmem : cs ∈ attach c pieces) :
    IsPiece cs := by
  unfold attach at hmem
  split at hmem
  case h_1 d ds pieces =>
    split at hmem
    case isTrue =>
      obtain rfl | hmem := List.mem_cons.mp hmem
      · exact isPiece_singleton c
      · exact h cs hmem
    case isFalse hrun =>
      rw [Bool.or_eq_true, not_or, Bool.not_eq_true, Bool.not_eq_true] at hrun
      obtain rfl | hmem := List.mem_cons.mp hmem
      · -- The run that `c` is put in front of is no separator.
        obtain ⟨d', hd', heq⟩ | ⟨-, hds⟩ := h (d :: ds) (List.mem_cons_self ..)
        · obtain ⟨rfl, -⟩ := List.cons.inj heq
          rw [hrun.2] at hd'
          cases hd'
        · exact .inr ⟨List.cons_ne_nil _ _, List.forall_mem_cons.mpr ⟨hrun.1, hds⟩⟩
      · exact h cs (List.mem_cons_of_mem _ hmem)
  case h_2 =>
    obtain rfl | hmem := List.mem_cons.mp hmem
    · exact isPiece_singleton c
    · exact h cs hmem

theorem isPiece_of_mem_split {source cs : List Char} (h : cs ∈ split source) : IsPiece cs := by
  induction source generalizing cs with
  | nil => cases h
  | cons c source ih => exact isPiece_of_mem_attach (fun cs => ih) h

theorem exists_mem_of_mem_place {p : Position} {pieces : List (List Char)} {fragment : Fragment}
    (h : fragment ∈ place p pieces) : ∃ cs ∈ pieces, fragment.text = String.ofList cs := by
  induction pieces generalizing p with
  | nil => cases h
  | cons cs pieces ih =>
    obtain rfl | h := List.mem_cons.mp h
    · exact ⟨cs, List.mem_cons_self .., rfl⟩
    · obtain ⟨cs', hmem, htext⟩ := ih h
      exact ⟨cs', List.mem_cons_of_mem _ hmem, htext⟩

theorem isPiece_of_mem_ofSource {file : Option String} {source : String} {fragment : Fragment}
    (h : fragment ∈ ofSource file source) : IsPiece fragment.text.toList := by
  obtain ⟨cs, hmem, htext⟩ := exists_mem_of_mem_place h
  rw [htext, String.toList_ofList]
  exact isPiece_of_mem_split hmem

end Fragment

/-! ## Classification -/

/-- Names that a rule for one text takes before the rule for names. -/
def keywords : List String := ["import", "as", "string"]

/-- Text without quotes. -/
def IsPlain (text : String) : Prop := '"' ∉ text.toList

/-- Names that are no keywords. -/
def IsIdentifier (text : String) : Prop := isName text.toList = true ∧ text ∉ keywords

namespace Token

theorem isIdentifier_of_classify {text : String}
    (h : classify Rule.standard text = .identifier) : IsIdentifier text := by
  have hrule : ∀ rule ∈ Rule.standard, rule.kind = .identifier →
      rule.test = .pattern Rule.nameRegex := by
    simp [Rule.standard, Rule.exact]
  refine ⟨?_, ?_⟩
  · rw [classify] at h
    split at h
    case h_1 rule hfind =>
      have haccepts := List.find?_some hfind
      rw [hrule rule (List.mem_of_find?_eq_some hfind) h, Test.accepts, occursIn_nameRegex]
        at haccepts
      exact haccepts
    case h_2 => cases h
  · intro hmem
    simp only [keywords, List.mem_cons, List.not_mem_nil, or_false] at hmem
    obtain rfl | rfl | rfl := hmem <;> revert h <;> decide

/-- A token without quotes in its text, which is an identifier if the kind says so. -/
structure Clean (t : Token) : Prop where
  plain : IsPlain t.text
  identifier : t.kind = .identifier → IsIdentifier t.text

/-- Every fragment becomes a quotation mark or a token without quotes. -/
theorem clean_ofFragment {fragment : Fragment}
    (h : Fragment.IsPiece fragment.text.toList)
    (hkind : (ofFragment Rule.standard fragment).kind ≠ .stringLiteralMarker) :
    (ofFragment Rule.standard fragment).Clean := by
  refine ⟨fun hquote => hkind ?_, isIdentifier_of_classify⟩
  obtain ⟨c, -, hc⟩ | ⟨-, hrun⟩ := h
  · -- A separator stands alone, so the quote is the whole fragment.
    have hquote : '"' ∈ fragment.text.toList := hquote
    rw [hc] at hquote
    obtain rfl := List.mem_singleton.mp hquote
    have htext : fragment.text = "\"" := String.toList_inj.mp hc
    rw [ofFragment, htext]
    exact show classify Rule.standard "\"" = .stringLiteralMarker by decide
  · have hsep : isSeparator '"' = true := by decide
    rw [hrun _ hquote] at hsep
    cases hsep

/-! ## Passes -/

/-- What the passes over tokens keep: `M` holds of the classified tokens, and `P` of what the
strings pass and those behind it make of them. -/
structure Kept (M P : Token → Prop) : Prop where
  other : ∀ t, M t → t.kind ≠ .stringLiteralMarker → P t
  string : ∀ parts mark, (∀ t ∈ parts, P t) → M mark → P (merge .stringLiteral parts mark)
  comment : ∀ parts mark, (∀ t ∈ parts, P t) → P mark → P (merge .comment parts mark)
  arrayType : ∀ a b c, P a → P b → P c → P (merge .stringArrayType [a, b, c] a)
  semicolon : ∀ t, P t → P { t with kind := .semicolon, text := ";" }

namespace Kept

variable {M P : Token → Prop} (hkept : Kept M P) {mark : Option Token} {parts ts : List Token}

include hkept

theorem joinStringsFrom {out : List Token} (hts : ∀ t ∈ ts, M t) (hmark : ∀ t ∈ mark, M t)
    (hparts : ∀ t ∈ parts, P t) (h : joinStringsFrom mark parts ts = .ok out) :
    ∀ t ∈ out, P t := by
  fun_induction Token.joinStringsFrom mark parts ts generalizing out with
  | case1 => cases h; simp
  | case2 => cases h
  | case3 parts t ts hkind ih =>
    obtain ⟨hfirst, hrest⟩ := List.forall_mem_cons.mp hts
    exact ih hrest (by simpa using hfirst) (by simp) h
  | case4 parts t ts hkind ih =>
    obtain ⟨hfirst, hrest⟩ := List.forall_mem_cons.mp hts
    obtain ⟨others, hothers, rfl⟩ := map_eq_ok_iff.mp h
    exact List.forall_mem_cons.mpr
      ⟨hkept.other t hfirst hkind, ih hrest (by simp) (by simp) hothers⟩
  | case5 parts t ts mark hkind ih =>
    obtain ⟨others, hothers, rfl⟩ := map_eq_ok_iff.mp h
    refine List.forall_mem_cons.mpr
      ⟨?_, ih (List.forall_mem_cons.mp hts).2 (by simp) (by simp) hothers⟩
    exact hkept.string _ _ (by simpa using hparts) (hmark mark rfl)
  | case6 parts t ts mark hkind ih =>
    obtain ⟨hfirst, hrest⟩ := List.forall_mem_cons.mp hts
    exact ih hrest hmark (List.forall_mem_cons.mpr ⟨hkept.other t hfirst hkind, hparts⟩) h

theorem joinCommentsFrom (hts : ∀ t ∈ ts, P t) (hmark : ∀ t ∈ mark, P t)
    (hparts : ∀ t ∈ parts, P t) : ∀ t ∈ joinCommentsFrom mark parts ts, P t := by
  have hmerge : ∀ {parts : List Token} {mark : Token}, (∀ t ∈ parts, P t) → P mark →
      P (merge .comment parts.reverse mark) := by
    intro parts mark hparts hmark
    exact hkept.comment _ _ (by simpa using hparts) hmark
  fun_induction Token.joinCommentsFrom mark parts ts with
  | case1 => simp
  | case2 parts mark => simpa using hmerge hparts (hmark mark rfl)
  | case3 parts t ts hkind ih =>
    obtain ⟨hfirst, hrest⟩ := List.forall_mem_cons.mp hts
    exact ih hrest (by simpa using hfirst) (by simp)
  | case4 parts t ts hkind ih =>
    obtain ⟨hfirst, hrest⟩ := List.forall_mem_cons.mp hts
    exact List.forall_mem_cons.mpr ⟨hfirst, ih hrest (by simp) (by simp)⟩
  | case5 parts t ts mark hkind ih =>
    obtain ⟨hfirst, hrest⟩ := List.forall_mem_cons.mp hts
    refine List.forall_mem_cons.mpr
      ⟨hmerge hparts (hmark mark rfl), List.forall_mem_cons.mpr ⟨hfirst, ?_⟩⟩
    exact ih hrest (by simp) (by simp)
  | case6 parts t ts mark hkind ih =>
    obtain ⟨hfirst, hrest⟩ := List.forall_mem_cons.mp hts
    exact ih hrest hmark (List.forall_mem_cons.mpr ⟨hfirst, hparts⟩)

theorem joinArrayTypes (hts : ∀ t ∈ ts, P t) : ∀ t ∈ joinArrayTypes ts, P t := by
  fun_induction Token.joinArrayTypes ts with
  | case1 a b c ts _ ih =>
    obtain ⟨ha, hts⟩ := List.forall_mem_cons.mp hts
    obtain ⟨hb, hts⟩ := List.forall_mem_cons.mp hts
    obtain ⟨hc, hts⟩ := List.forall_mem_cons.mp hts
    exact List.forall_mem_cons.mpr ⟨hkept.arrayType a b c ha hb hc, ih hts⟩
  | case2 a b c ts _ ih =>
    obtain ⟨ha, hts⟩ := List.forall_mem_cons.mp hts
    exact List.forall_mem_cons.mpr ⟨ha, ih hts⟩
  | case3 t ts _ ih =>
    obtain ⟨ht, hts⟩ := List.forall_mem_cons.mp hts
    exact List.forall_mem_cons.mpr ⟨ht, ih hts⟩
  | case4 => exact hts

theorem endStatementsAfter {previous : Option Kind} (hts : ∀ t ∈ ts, P t) :
    ∀ t ∈ endStatementsAfter previous ts, P t := by
  induction ts generalizing previous with
  | nil => exact hts
  | cons t ts ih =>
    obtain ⟨ht, hts⟩ := List.forall_mem_cons.mp hts
    rw [Token.endStatementsAfter]
    split
    · exact List.forall_mem_cons.mpr ⟨ht, ih hts⟩
    · split
      · exact List.forall_mem_cons.mpr ⟨ht, ih hts⟩
      · exact List.forall_mem_cons.mpr ⟨hkept.semicolon t ht, ih hts⟩
    · exact List.forall_mem_cons.mpr ⟨ht, ih hts⟩

end Kept

theorem clean_merge {kind : Kind} {parts : List Token} {mark : Token} (hkind : kind ≠ .identifier)
    (h : ∀ t ∈ parts, t.Clean) : (merge kind parts mark).Clean := by
  refine ⟨fun hquote => ?_, fun heq => absurd heq hkind⟩
  rw [merge, String.toList_join, List.mem_flatMap] at hquote
  obtain ⟨text, htext, hquote⟩ := hquote
  obtain ⟨t, ht, rfl⟩ := List.mem_map.mp htext
  exact (h t ht).plain hquote

/-- The strings pass leaves no quotation mark, and no pass brings one in. -/
theorem clean_kept : Kept (fun t => t.kind ≠ .stringLiteralMarker → t.Clean) Clean where
  other _ ht := ht
  string _ _ hparts _ := clean_merge (by decide) hparts
  comment _ _ hparts _ := clean_merge (by decide) hparts
  arrayType a b c ha hb hc := clean_merge (by decide) (by simp [ha, hb, hc])
  semicolon _ _ := ⟨show '"' ∉ ";".toList by decide, nofun⟩

/-- Only the strings pass can fail. -/
theorem result_runPasses_all (ts : List Token) :
    (runPasses Pass.all ts).result = (joinStrings ts).map fun ts =>
      dropBlanks (endStatements (joinArrayTypes (joinComments ts))) := by
  simp only [Pass.all, runPasses, Pass.run, Run.result_bind, Run.result_ofExcept,
    Run.result_report, Run.result_pure]
  cases joinStrings ts <;> rfl

end Token

theorem Compiler.result_tokens (file : Option String) (source : String) :
    (tokens file source).result =
      (Token.joinStrings ((Fragment.ofSource file source).map
        (Token.ofFragment Token.Rule.standard))).map fun ts =>
      Token.dropBlanks (Token.endStatements (Token.joinArrayTypes (Token.joinComments ts))) := by
  rw [← Token.result_runPasses_all, tokens, Token.lex]
  simp only [Run.result_bind, Run.result_report]
  rfl

/-- What the passes keep holds of the tokens of a source. -/
theorem Compiler.forall_mem_tokens {M P : Token → Prop} (hkept : Token.Kept M P)
    {file : Option String} {source : String} {ts : List Token}
    (hfragments : ∀ fragment ∈ Fragment.ofSource file source,
      M (Token.ofFragment Token.Rule.standard fragment))
    (h : (tokens file source).result = .ok ts) : ∀ t ∈ ts, P t := by
  rw [result_tokens] at h
  obtain ⟨joined, hjoined, rfl⟩ := map_eq_ok_iff.mp h
  have hclassified : ∀ t ∈ (Fragment.ofSource file source).map
      (Token.ofFragment Token.Rule.standard), M t := List.forall_mem_map.mpr hfragments
  have hstrings := hkept.joinStringsFrom hclassified (by simp) (by simp) hjoined
  have hcomments := @Token.Kept.joinCommentsFrom M P hkept none [] joined hstrings (by simp)
    (by simp)
  have hended := @Token.Kept.endStatementsAfter M P hkept _ none
    (hkept.joinArrayTypes hcomments)
  exact fun t ht => hended t (List.mem_filter.mp ht).1

/-- The tokens of a source have no quotes in their texts, and identifiers are names. -/
theorem Compiler.clean_of_tokens {file : Option String} {source : String} {ts : List Token}
    (h : (tokens file source).result = .ok ts) : ∀ t ∈ ts, t.Clean :=
  forall_mem_tokens Token.clean_kept
    (fun _ hmem => Token.clean_ofFragment (Fragment.isPiece_of_mem_ofSource hmem)) h

end CheckedScript
