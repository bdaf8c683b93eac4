import CheckedScript.Proofs.Concatenation
import CheckedScript.Proofs.Grouping

/-!
When lexing fails. A quote is a fragment of its own wherever it stands, and only the strings pass
can fail, so the parity of the quotes in a source decides. Behind an odd number of them the last
one is open: it is the first quote behind a text in which every quote is closed.

Main result:
* `Token.lexing_fails_iff_odd_quotes`: when, and with which error.
-/

namespace CheckedScript

theorem exists_last_of_mem {α : Type} {a : α} {xs : List α} (h : a ∈ xs) :
    ∃ front back, xs = front ++ a :: back ∧ a ∉ back := by
  obtain ⟨front, back, hcut, hnot⟩ := List.eq_append_cons_of_mem (List.mem_reverse.mpr h)
  refine ⟨back.reverse, front.reverse, ?_, fun hmem => hnot (List.mem_reverse.mp hmem)⟩
  rw [← List.reverse_reverse xs, hcut]
  simp

theorem CompileError.message_unterminatedString (p : Position) :
    message (.malformed .unterminatedString (some p)) =
      p.text ++ ": syntax error: unterminated string literal" := by
  have hjoined : ": " ++ ("syntax error: " ++ "unterminated string literal") =
      ": syntax error: unterminated string literal" := by decide
  calc message (.malformed .unterminatedString (some p))
    _ = p.text ++ ": " ++ "syntax error: " ++ "unterminated string literal" := rfl
    _ = p.text ++ (": " ++ ("syntax error: " ++ "unterminated string literal")) := by
      rw [String.append_assoc, String.append_assoc]
    _ = p.text ++ ": syntax error: unterminated string literal" := congrArg (p.text ++ ·) hjoined

namespace Token

/-! ## The strings pass -/

/-- A quote with none behind it stays open. -/
theorem joinStringsFrom_unclosed {mark : Token} {parts ts : List Token}
    (h : ∀ t ∈ ts, t.kind ≠ .stringLiteralMarker) :
    joinStringsFrom (some mark) parts ts =
      .error (.malformed .unterminatedString (some mark.position)) := by
  induction ts generalizing parts with
  | nil => rfl
  | cons t ts ih =>
    obtain ⟨ht, hts⟩ := List.forall_mem_cons.mp h
    rw [joinStringsFrom, if_neg ht, ih hts]

/-- If the quotes before it are closed, the last quote is where the pass fails. -/
theorem joinStrings_last_quote {front back : List Token} {mark : Token}
    (hfront : (Region.along {} front).quoted = false) (hmark : mark.kind = .stringLiteralMarker)
    (hback : ∀ t ∈ back, t.kind ≠ .stringLiteralMarker) :
    joinStrings (front ++ mark :: back) =
      .error (.malformed .unterminatedString (some mark.position)) := by
  obtain ⟨joined, hjoined, -⟩ := joinStrings_of_along hfront
  rw [joinStrings, joinStringsFrom_append hjoined, joinStrings, joinStringsFrom, if_pos hmark,
    joinStringsFrom_unclosed hback]
  rfl

/-! ## Sources -/

/-- The tokens of pieces from `p` on, before any pass. -/
def classified (p : Position) (pieces : List (List Char)) : List Token :=
  (Fragment.place p pieces).map (ofFragment Rule.standard)

theorem quoted_classified (p : Position) {cs : List Char} (h : Even (cs.count '"')) :
    (Region.along {} (classified p (Fragment.split cs))).quoted = false := by
  rw [← Region.along_moved Position.forget, classified, place_moved]
  exact quoted_of_even h

theorem kind_classified_ne_quote (p : Position) {cs : List Char} (h : '"' ∉ cs) :
    ∀ t ∈ classified p (Fragment.split cs), t.kind ≠ .stringLiteralMarker := by
  intro t ht
  have hmoved := List.mem_map_of_mem (f := moved Position.forget) ht
  rw [classified, place_moved] at hmoved
  exact fun hkind => kind_ne_quote h _ hmoved hkind

/-- A quote cuts the text into pieces before and behind it. -/
theorem classified_quote (file : Option String) (front back : List Char) :
    ∃ mark p, classified (Position.start file) (Fragment.split (front ++ '"' :: back)) =
        classified (Position.start file) (Fragment.split front) ++
          mark :: classified p (Fragment.split back) ∧
      mark.kind = .stringLiteralMarker ∧ mark.position = Position.behind file front := by
  have hquote : isSeparator '"' = true := by decide
  have hsplit : Fragment.split (front ++ '"' :: back) =
      Fragment.split front ++ ['"'] :: Fragment.split back := by
    rw [Fragment.split_append (.inr fun c hc => by cases hc; exact hquote), Fragment.split,
      Fragment.attach_separator hquote]
  refine ⟨ofFragment Rule.standard ⟨String.ofList ['"'], Position.behind file front⟩,
    (Position.behind file front).after ['"'], ?_,
    show classify Rule.standard (String.ofList ['"']) = .stringLiteralMarker by decide, rfl⟩
  rw [hsplit, classified, Fragment.place_append, Fragment.split_flatten, Position.start_after,
    List.map_append]
  rfl

theorem result_ofSource (file : Option String) (source : String) :
    (ofSource file source).result =
      (joinStrings (classified (Position.start file) (Fragment.split source.toList))).map
        fun ts => dropBlanks (endStatements (joinArrayTypes (joinComments ts))) := by
  rw [← result_runPasses_all, ofSource, lex]
  simp only [Run.result_bind, Run.result_report]
  rfl

theorem result_ofSource_of_even (file : Option String) {source : String}
    (h : Even (source.toList.count '"')) : ∃ ts, (ofSource file source).result = .ok ts := by
  obtain ⟨joined, hjoined, -⟩ :=
    joinStrings_of_along (quoted_classified (Position.start file) h)
  exact ⟨_, by rw [result_ofSource, hjoined]; rfl⟩

theorem result_ofSource_of_last_quote (file : Option String) {source : String}
    {front back : List Char} (hsource : source.toList = front ++ '"' :: back)
    (hfront : Even (front.count '"')) (hback : '"' ∉ back) :
    (ofSource file source).result =
      .error (.malformed .unterminatedString (some (Position.behind file front))) := by
  obtain ⟨mark, p, hclassified, hkind, hposition⟩ := classified_quote file front back
  rw [result_ofSource, hsource, hclassified, joinStrings_last_quote
    (quoted_classified _ hfront) hkind (kind_classified_ne_quote p hback), hposition]
  rfl

/-- The quotes before the last of an odd number are even in number. -/
theorem even_count_of_odd {front back : List Char}
    (h : Odd ((front ++ '"' :: back).count '"')) (hback : '"' ∉ back) :
    Even (front.count '"') := by
  rw [List.count_append, List.count_cons_self, List.count_eq_zero.mpr hback, Nat.odd_iff] at h
  rw [Nat.even_iff]
  omega

namespace Rule

/-- The pattern for names can be read. -/
theorem ofPattern_name :
    ofPattern "[a-zA-Z][a-zA-Z0-9_]*" .identifier = .ok ⟨.pattern nameRegex, .identifier⟩ := by
  cbv

theorem standard_of_texts {rule : Rule} (h : rule ∈ standard) :
    (∃ text, rule = exact text rule.kind) ∨
      ∃ pattern, ofPattern pattern rule.kind = .ok rule := by
  have hrules : ∀ rule ∈ standard,
      (∃ text, rule.test = .exact text) ∨ rule = ⟨.pattern nameRegex, .identifier⟩ := by
    simp [standard, exact]
  obtain ⟨text, htext⟩ | rfl := hrules rule h
  · exact .inl ⟨text, by rw [exact, ← htext]⟩
  · exact .inr ⟨_, ofPattern_name⟩

end Rule

/-- Every rule of the language can be read, and a source has no tokens exactly if it has an odd
number of quotes, those in comments counted. The error is then that the last of them opens a
string literal that is never closed. -/
theorem lexing_fails_iff_odd_quotes (file : Option String) (source : String) :
    (∀ rule ∈ Rule.standard, (∃ text, rule = Rule.exact text rule.kind) ∨
      ∃ pattern, Rule.ofPattern pattern rule.kind = .ok rule) ∧
    ((∃ e, (ofSource file source).result = .error e) ↔ Odd (source.toList.count '"')) ∧
    ∀ e, (ofSource file source).result = .error e →
      ∃ front back, source.toList = front ++ '"' :: back ∧ '"' ∉ back ∧
        e = .malformed .unterminatedString (some (Position.behind file front)) ∧
        e.kind = .parsing ∧
        e.message = (Position.behind file front).text ++
          ": syntax error: unterminated string literal" := by
  have hodd : ∀ e, (ofSource file source).result = .error e → Odd (source.toList.count '"') := by
    intro e he
    by_contra h
    obtain ⟨ts, hts⟩ := result_ofSource_of_even file (Nat.not_odd_iff_even.mp h)
    rw [he] at hts
    cases hts
  have hlast : Odd (source.toList.count '"') → ∃ front back,
      source.toList = front ++ '"' :: back ∧ '"' ∉ back ∧ (ofSource file source).result =
        .error (.malformed .unterminatedString (some (Position.behind file front))) := by
    intro h
    obtain ⟨front, back, hsource, hback⟩ :=
      exists_last_of_mem (List.count_pos_iff.mp (Nat.pos_of_ne_zero (Nat.ne_of_odd_add h)))
    rw [hsource] at h
    exact ⟨front, back, hsource, hback,
      result_ofSource_of_last_quote file hsource (even_count_of_odd h hback) hback⟩
  refine ⟨fun rule => Rule.standard_of_texts, ⟨fun ⟨e, he⟩ => hodd e he, fun h => ?_⟩, ?_⟩
  · obtain ⟨front, back, -, -, hresult⟩ := hlast h
    exact ⟨_, hresult⟩
  · intro e he
    obtain ⟨front, back, hsource, hback, hresult⟩ := hlast (hodd e he)
    rw [he, Except.error.injEq] at hresult
    subst hresult
    exact ⟨front, back, hsource, hback, rfl, rfl, CompileError.message_unterminatedString _⟩

end Token

end CheckedScript
