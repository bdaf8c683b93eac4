import CheckedScript.Proofs.Messages

/-!
Build records as lines of fields. A record is one line whatever the error says, and its first two
fields are the input and the outcome. The detail is one field unless the message quotes a tab, and
then the tab stands in a literal, in a comment or in an implicit command.

Main results:
* `Record.fields_buildRecord`: the fields of a record.
* `Compiler.record_fields_iff`: when there are three.

The label is taken to hold no tab and no line end, and scripts are not judged.
-/

namespace CheckedScript

open Grammar

/-! ## Tabs in tokens -/

namespace Token

theorem Tiles.forall_token {R : Token → Position → List Char → Prop} {P : Token → Prop}
    (hR : ∀ t p piece, R t p piece → P t) {p : Position} {ts : List Token} {cs : List Char}
    (h : Tiles R p ts cs) : ∀ t ∈ ts, P t := by
  induction h with
  | nil => simp
  | cons first _ ih => exact List.forall_mem_cons.mpr ⟨hR _ _ _ first, ih⟩

/-- A tab separates, so it is a fragment by itself, and that is a blank. -/
theorem IsFragment.isBlank_of_tab {t : Token} {p : Position} {piece : List Char}
    (h : IsFragment t p piece) (htab : '\t' ∈ t.text.toList) : t.kind.isBlank = true := by
  rw [h.text] at htab
  obtain ⟨c, -, hpiece⟩ | ⟨-, hrun⟩ := h.isPiece
  · rw [hpiece] at htab
    obtain rfl := List.mem_singleton.mp htab
    have htext : t.text = "\t" := String.toList_inj.mp (h.text.trans hpiece)
    rw [← h.kind, htext]
    decide
  · have hseparator : isSeparator '\t' = true := by decide
    rw [hrun _ htab] at hseparator
    cases hseparator

/-- A token that can hold a tab. -/
def MayHoldTab (t : Token) : Prop :=
  t.kind = .stringLiteral ∨ t.kind = .comment ∨ t.kind.isBlank = true

theorem Laid.mayHoldTab {t : Token} {p : Position} {piece : List Char} (h : Laid t p piece)
    (htab : '\t' ∈ t.text.toList) : t.MayHoldTab := by
  unfold MayHoldTab
  cases h with
  | joined h =>
    cases h with
    | word h => exact .inr (.inr (h.1.isBlank_of_tab htab))
    | literal kind => exact .inl kind
  | comment kind => exact .inr (.inl kind)
  | arrayType _ text =>
    rw [text] at htab
    exact absurd htab (notMem_ofList (by decide))

theorem mem_endStatementsAfter {previous : Option Kind} {ts : List Token} {t : Token}
    (h : t ∈ endStatementsAfter previous ts) : t ∈ ts ∨ t.text = ";" := by
  induction ts generalizing previous with
  | nil => cases h
  | cons u ts ih =>
    have hkept : ∀ {previous}, t ∈ u :: endStatementsAfter previous ts →
        t ∈ u :: ts ∨ t.text = ";" := by
      intro previous h
      obtain rfl | h := List.mem_cons.mp h
      · exact .inl (List.mem_cons_self ..)
      · exact (ih h).imp_left (List.mem_cons_of_mem u)
    rw [endStatementsAfter] at h
    split at h
    · exact hkept h
    · split at h
      · exact hkept h
      · obtain rfl | h := List.mem_cons.mp h
        · exact .inr rfl
        · exact hkept (List.mem_cons_of_mem u h)
    · exact hkept h

end Token

/-- In the tokens of a source, tabs stand in literals and comments only. -/
theorem Compiler.kind_of_tab {file : Option String} {source : String} {ts : List Token}
    (h : (tokens file source).result = .ok ts) {t : Token} (ht : t ∈ ts)
    (htab : '\t' ∈ t.text.toList) : t.kind = .stringLiteral ∨ t.kind = .comment := by
  rw [result_tokens] at h
  obtain ⟨joined, hjoined, rfl⟩ := map_eq_ok_iff.mp h
  have hstrings := Token.tiles_joinStringsFrom .closed (Token.tiles_ofSource file source) hjoined
  have harrays := Token.tiles_joinArrayTypes (Token.tiles_joinCommentsFrom .closed hstrings)
  obtain ⟨hmem, hblank⟩ := List.mem_filter.mp ht
  obtain hmem | hsemicolon := Token.mem_endStatementsAfter hmem
  · obtain hkind | hkind | hkind :=
      harrays.forall_token (P := fun t => '\t' ∈ t.text.toList → t.MayHoldTab)
        (fun _ _ _ => Token.Laid.mayHoldTab) t hmem htab
    · exact .inl hkind
    · exact .inr hkind
    · rw [hkind] at hblank
      cases hblank
  · rw [hsemicolon] at htab
    exact absurd htab (notMem_ofList (by decide))

/-! ## Records -/

namespace Record

/-- The texts between the tabs of a line. -/
def fields (line : String) : List String := (line.toList.splitOn '\t').map String.ofList

/-- The outcome of a compilation in a word or a few. -/
def outcome : Except CompileError String → String
  | .ok _ => "ok"
  | .error e => e.kind.name

/-- A text with its line ends written as semicolons. -/
def oneLine (text : String) : String :=
  String.join (text.toList.map fun c => if c = '\n' then "; " else String.singleton c)

/-- The length of the script, or the message of the error. -/
def detail : Except CompileError String → String
  | .ok script => toString (lineCount script) ++ " lines"
  | .error e => oneLine e.message

theorem buildRecord_eq (label : String) (result : Except CompileError String) :
    buildRecord label result = label ++ "\t" ++ (outcome result ++ "\t" ++ detail result) := by
  cases result with
  | ok script =>
    have hok : "\tok\t" = "\t" ++ ("ok" ++ "\t") := by decide
    rw [buildRecord, hok]
    simp only [outcome, detail, String.append_assoc]
  | error e => simp only [buildRecord, outcome, detail, oneLine, String.append_assoc]

theorem fields_behind {front : String} (h : '\t' ∉ front.toList) (back : String) :
    fields (front ++ "\t" ++ back) = front :: fields back := by
  have hfront : ∀ c ∈ front.toList, (c == '\t') = false := by
    intro c hc
    exact beq_false_of_ne fun heq => h (heq ▸ hc)
  have htab : (front ++ "\t" ++ back).toList = front.toList ++ '\t' :: back.toList := by
    simp [String.toList_append]
  unfold fields
  rw [htab, List.splitOn_eq_splitOnP, List.splitOn_eq_splitOnP,
    List.splitOnP_append_cons_of_forall_mem hfront _ (by decide), List.map_cons,
    String.ofList_toList]

/-- A text is one field exactly if it has no tab. -/
theorem fields_eq_singleton_iff {text : String} : fields text = [text] ↔ '\t' ∉ text.toList := by
  constructor
  · intro h htab
    obtain ⟨front, back, hcut⟩ := List.append_of_mem htab
    have hlength := congrArg List.length h
    unfold fields at hlength
    rw [hcut, List.splitOn_eq_splitOnP, List.splitOnP_append_cons front back (by decide),
      List.length_map, List.length_append, List.length_singleton] at hlength
    have hfront := List.length_pos_iff.mpr (List.splitOnP_ne_nil (· == '\t') front)
    have hback := List.length_pos_iff.mpr (List.splitOnP_ne_nil (· == '\t') back)
    omega
  · intro h
    have htext : ∀ c ∈ text.toList, (c == '\t') = false := by
      intro c hc
      exact beq_false_of_ne fun heq => h (heq ▸ hc)
    unfold fields
    rw [List.splitOn_eq_splitOnP, List.splitOnP_eq_singleton htext, List.map_singleton,
      String.ofList_toList]

theorem mem_oneLine_iff {c : Char} {text : String} :
    c ∈ (oneLine text).toList ↔
      c ≠ '\n' ∧ c ∈ text.toList ∨ (c = ';' ∨ c = ' ') ∧ '\n' ∈ text.toList := by
  unfold oneLine
  rw [String.toList_join, List.mem_flatMap]
  simp only [List.mem_map]
  constructor
  · rintro ⟨_, ⟨d, hd, rfl⟩, hc⟩
    split at hc
    case isTrue hline =>
      subst hline
      exact .inr ⟨by simpa using hc, hd⟩
    case isFalse hline =>
      obtain rfl : c = d := by simpa using hc
      exact .inl ⟨hline, hd⟩
  · rintro (⟨hline, hc⟩ | ⟨hc, hline⟩)
    · exact ⟨_, ⟨c, hc, rfl⟩, by simp [hline]⟩
    · exact ⟨_, ⟨'\n', hline, rfl⟩, by simpa using hc⟩

theorem notMem_outcome {c : Char} (hc : c = '\t' ∨ c = '\n')
    (result : Except CompileError String) : c ∉ (outcome result).toList := by
  have hname : ∀ kind : CompileError.Kind, c ∉ kind.name.toList := by
    intro kind
    cases kind <;> obtain rfl | rfl := hc <;> exact notMem_ofList (by decide)
  cases result with
  | ok script => obtain rfl | rfl := hc <;> exact notMem_ofList (by decide)
  | error e => exact hname e.kind

theorem lineEnd_notMem_detail (result : Except CompileError String) :
    '\n' ∉ (detail result).toList := by
  cases result with
  | ok script =>
    unfold detail
    rw [mem_before_iff (by decide)]
    simp [notMem_toDigits]
  | error e =>
    intro hmem
    obtain ⟨hline, -⟩ | ⟨hother, -⟩ := mem_oneLine_iff.mp hmem
    · exact hline rfl
    · exact absurd hother (by decide)

theorem tab_mem_detail_iff {result : Except CompileError String} :
    '\t' ∈ (detail result).toList ↔ ∃ e, result = .error e ∧ '\t' ∈ e.message.toList := by
  cases result with
  | ok script =>
    unfold detail
    rw [mem_before_iff (by decide)]
    simp [notMem_toDigits]
  | error e =>
    unfold detail
    rw [mem_oneLine_iff]
    simp

/-- A record is one line. -/
theorem lineEnd_notMem_buildRecord {label : String} (h : '\n' ∉ label.toList)
    (result : Except CompileError String) : '\n' ∉ (buildRecord label result).toList := by
  rw [buildRecord_eq, mem_parted_iff (by decide), mem_parted_iff (by decide)]
  simp [h, notMem_outcome (.inr rfl), lineEnd_notMem_detail]

/-- The first two fields of a record are the input and the outcome. -/
theorem fields_buildRecord {label : String} (h : '\t' ∉ label.toList)
    (result : Except CompileError String) :
    fields (buildRecord label result) = label :: outcome result :: fields (detail result) := by
  rw [buildRecord_eq, fields_behind h, fields_behind (notMem_outcome (.inl rfl) result)]

end Record

/-! ## Records of compilations -/

/-- An error whose message quotes a tab: of a literal that is no statement, of a literal or comment
that is no parameter, or of an implicit command that no status is left for. -/
inductive CompileError.QuotesTab (config : Config) (ts : List Token) : CompileError → Prop
  | statement {t : Token} (mem : t ∈ ts) (kind : t.kind = .stringLiteral)
      (tab : '\t' ∈ t.text.toList) : QuotesTab config ts (faultAt t (.unexpected t.text))
  | parameter {t : Token} (mem : t ∈ ts) (kind : t.kind = .stringLiteral ∨ t.kind = .comment)
      (tab : '\t' ∈ t.text.toList) : QuotesTab config ts (faultAt t (.malformedParameter t.text))
  | command {command : String} (mem : command ∈ config.commands.implicit)
      (tab : '\t' ∈ command.toList) : QuotesTab config ts (Script.noStatus command)

theorem CompileError.QuotesTab.exists_quoted {config : Config} {ts : List Token} {e : CompileError}
    (h : e.QuotesTab config ts) : ∃ text ∈ e.quoted, '\t' ∈ text.toList := by
  cases h with
  | statement _ _ tab | parameter _ _ tab | command _ tab =>
    exact ⟨_, List.mem_singleton_self _, tab⟩

theorem tab_notMem_of_isIdentifier {text : String} (h : IsIdentifier text) :
    '\t' ∉ text.toList := by
  intro htab
  exact absurd (alphanum_of_isName h.1 _ htab) (by decide)

namespace Compiler

open Record

variable {valid : String → Bool} {config : Config} {label source : String}

/-- The tokens with tabs are literals and comments, and a comment is always a statement. -/
theorem quotesTab_of_compileBy (hverify : config.settings.verifyOutput = false) {e : CompileError}
    (h : (compileBy valid config (some label) source).result = .error e)
    (htab : ∃ text ∈ e.quoted, '\t' ∈ text.toList) :
    ∃ ts, (tokens (some label) source).result = .ok ts ∧ e.QuotesTab config ts := by
  obtain ⟨text, htext, htab⟩ := htab
  obtain hnone | ⟨ts, hts, hcites | ⟨command, hcommand, rfl⟩⟩ := cites_of_compileBy hverify h
  · rw [hnone] at htext
    cases htext
  · refine ⟨ts, hts, ?_⟩
    cases hcites with
    | names hnames => exact absurd htab (tab_notMem_of_isIdentifier (hnames text htext))
    | @stray t mem hkind =>
      obtain rfl := List.mem_singleton.mp htext
      exact .statement mem ((kind_of_tab hts mem htab).resolve_right hkind) htab
    | @parameter t mem =>
      obtain rfl := List.mem_singleton.mp htext
      exact .parameter mem (kind_of_tab hts mem htab) htab
  · obtain rfl := List.mem_singleton.mp htext
    exact ⟨ts, hts, .command hcommand htab⟩

theorem tab_mem_message_of_compileBy_iff (hverify : config.settings.verifyOutput = false)
    (hlabel : '\t' ∉ label.toList) {e : CompileError}
    (h : (compileBy valid config (some label) source).result = .error e) :
    '\t' ∈ e.message.toList ↔
      ∃ ts, (tokens (some label) source).result = .ok ts ∧ e.QuotesTab config ts := by
  have hmoved : e.moved (Position.relabelled (some label)) = e := by
    have hresult := result_compileBy_relabelled valid config (some label) (some label) source
    rw [h] at hresult
    exact (Except.error.inj hresult).symm
  rw [CompileError.tab_mem_message_iff_of_label hlabel hmoved]
  constructor
  · exact quotesTab_of_compileBy hverify h
  · rintro ⟨ts, -, hquotes⟩
    exact hquotes.exists_quoted

/-- The record of a compilation is one line that starts with the input and the outcome. What
follows is one field, the detail, exactly if the compilation does not fail with an error that quotes
a tab. -/
theorem record_fields_iff (hverify : config.settings.verifyOutput = false)
    (hline : '\n' ∉ label.toList) (htab : '\t' ∉ label.toList)
    {result : Except CompileError String}
    (hresult : (compile config (some label) source).result = result) :
    '\n' ∉ (buildRecord label result).toList ∧
      fields (buildRecord label result) = label :: outcome result :: fields (detail result) ∧
      (fields (buildRecord label result) = [label, outcome result, detail result] ↔
        ¬ ∃ ts e, (tokens (some label) source).result = .ok ts ∧ result = .error e ∧
          e.QuotesTab config ts) := by
  have hfields := fields_buildRecord htab result
  refine ⟨lineEnd_notMem_buildRecord hline result, hfields, ?_⟩
  rw [hfields, List.cons_inj_right, List.cons_inj_right, fields_eq_singleton_iff,
    tab_mem_detail_iff]
  refine not_congr ⟨?_, ?_⟩
  · rintro ⟨e, rfl, hmessage⟩
    obtain ⟨ts, hts, hquotes⟩ :=
      (tab_mem_message_of_compileBy_iff hverify htab hresult).mp hmessage
    exact ⟨ts, e, hts, rfl, hquotes⟩
  · rintro ⟨ts, e, hts, rfl, hquotes⟩
    exact ⟨e, rfl,
      (tab_mem_message_of_compileBy_iff hverify htab hresult).mpr ⟨ts, hts, hquotes⟩⟩

/-- A tab in an argument is not quoted, though the command in front of it is. -/
theorem record_fields_iff_tab_in_argument :
    ∃ result, (compile {} (some "a b.bk") "main:():\x7b\n\t$ls[\"x\ty\"]\n\x7d").result = result ∧
      fields (buildRecord "a b.bk" result) =
        ["a b.bk", "unresolved command", "a b.bk:2:3: command `ls` is not imported"] := by
  have hresult : (compile {} (some "a b.bk") "main:():\x7b\n\t$ls[\"x\ty\"]\n\x7d").result =
      .error (.unresolved "ls" (some ⟨some "a b.bk", 2, 3⟩)) := by cbv
  refine ⟨_, hresult, ?_⟩
  obtain ⟨-, -, hfields⟩ := record_fields_iff rfl (by decide) (by decide) hresult
  rw [hfields.mpr]
  · decide +kernel
  · rintro ⟨ts, e, -, he, hquotes⟩
    cases he
    cases hquotes

/-- The literal is no statement, and its tab parts the detail in two. -/
theorem record_of_stray_literal_has_four_fields :
    let config : Config := { Config.standard with settings.verifyOutput := false }
    fields (buildRecord "x.bk" (compile config (some "x.bk") "\"a\tb\"\n").result) =
      ["x.bk", "syntax error", "x.bk:1:2: syntax error: unexpected `a", "b`"] := by
  decide +kernel

-- A comment among parameters and an implicit command are quoted with their tabs as well.
example :
    let config : Config := { commands.implicit := ["ls", "a\tb"], output.firstExitCode := 255 }
    buildRecord "x.bk" (compile config (some "x.bk") "f:(#a\tb\n):\x7b\x7d").result =
        "x.bk\tsyntax error\tx.bk:1:5: syntax error: malformed parameter near `a\tb`" ∧
      buildRecord "x.bk" (compile config (some "x.bk") "").result =
        "x.bk\tcode generation error\t" ++
          "code generation failed: no exit status left for the check of `a\tb`" := by
  decide +kernel

end Compiler

end CheckedScript
