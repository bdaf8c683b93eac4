import CheckedScript.Proofs.Constructors
import CheckedScript.Proofs.Interleaving
import CheckedScript.Proofs.Labels
import CheckedScript.Proofs.SourceErrors

/-!
What the messages of errors quote. A message is made of words of its own, of a position, and of
texts from elsewhere. Those are names of the program, except where a token is no statement or no
parameter, and where the statuses run out at an implicit command.

Main results:
* `CompileError.tab_mem_message_iff`: where a tab in a message comes from.
* `Compiler.cites_of_compileBy`: what the errors of a compilation quote.

Scripts are not judged here.
-/

namespace CheckedScript

open Grammar

/-! ## Texts in messages -/

/-- The texts that the message of a fault is given. -/
def SourceFault.quoted : SourceFault → List String
  | expected text | secondAlias text | notAType text | secondReturnType text | unclosedBody text
  | malformedParameter text | malformedFunction text | nestedFunction text | unexpected text
  | stated text => [text]
  | _ => []

def Clash.quoted : Clash → List String
  | aliasOf command => [command]
  | _ => []

def ScriptFault.quoted : ScriptFault → List String
  | noStatusLeft text | strayParameter text | inNode text | stated text => [text]
  | nameClash _ name clash => name :: clash.quoted
  | _ => []

def ScriptFault.position? : ScriptFault → Option Position
  | secondMain position => some position
  | nameClash position _ _ => some position
  | _ => none

namespace CompileError

def quoted : CompileError → List String
  | classification pattern fault => [pattern, fault.message]
  | malformed fault _ => fault.quoted
  | nestingTooDeep _ _ => []
  | unresolved command _ => [command]
  | generation fault _ => fault.quoted

/-- The position that the message shows. -/
def shown? : CompileError → Option Position
  | classification _ _ => none
  | malformed _ position | nestingTooDeep _ position | unresolved _ position => position
  | generation fault _ => fault.position?

end CompileError

/-! ## Tabs in messages -/

theorem notMem_toDigits {c : Char} (hc : c.isDigit = false) (n : Nat) : c ∉ Nat.toDigits 10 n := by
  intro hmem
  rw [Nat.isDigit_of_mem_toDigits (by decide) (by decide) hmem] at hc
  cases hc

section

variable {c : Char} {front back : List Char}

theorem notMem_ofList (hfront : c ∉ front) : c ∉ (String.ofList front).toList := by
  rwa [String.toList_ofList]

theorem mem_behind_iff (hfront : c ∉ front) (text : String) :
    c ∈ (String.ofList front ++ text).toList ↔ c ∈ text.toList := by
  rw [String.toList_append, List.mem_append, or_iff_right (notMem_ofList hfront)]

theorem mem_before_iff (hback : c ∉ back) (text : String) :
    c ∈ (text ++ String.ofList back).toList ↔ c ∈ text.toList := by
  rw [String.toList_append, List.mem_append, or_iff_left (notMem_ofList hback)]

theorem mem_framed_iff (hfront : c ∉ front) (hback : c ∉ back) (text : String) :
    c ∈ (String.ofList front ++ text ++ String.ofList back).toList ↔ c ∈ text.toList := by
  rw [mem_before_iff hback, mem_behind_iff hfront]

theorem mem_parted_iff (hback : c ∉ back) (text other : String) :
    c ∈ (text ++ String.ofList back ++ other).toList ↔ c ∈ text.toList ∨ c ∈ other.toList := by
  rw [String.toList_append, List.mem_append, mem_before_iff hback]

end

theorem Position.tab_mem_text_iff (p : Position) :
    '\t' ∈ p.text.toList ↔ ∃ label ∈ p.file, '\t' ∈ label.toList := by
  unfold text
  cases p.file with
  | none => simp [notMem_toDigits]
  | some label => simp [notMem_toDigits]

theorem SourceFault.tab_mem_message_iff (fault : SourceFault) :
    '\t' ∈ fault.message.toList ↔ ∃ text ∈ fault.quoted, '\t' ∈ text.toList := by
  have hone : ∀ {text : String}, fault.quoted = [text] →
      ((∃ text ∈ fault.quoted, '\t' ∈ text.toList) ↔ '\t' ∈ text.toList) := by
    intro text hquoted
    simp [hquoted]
  cases fault with
  | unterminatedString | endOfInput | malformedImport | strayInvocation | malformedInvocation =>
    exact iff_of_false (notMem_ofList (by decide)) nofun
  | expected text => exact (mem_behind_iff (by decide) text).trans (hone rfl).symm
  | stated text => exact (hone rfl).symm
  | _ => exact (mem_framed_iff (by decide) (by decide) _).trans (hone rfl).symm

/-- A tab in the name itself aside, a clash shows one if it is given one. -/
theorem Clash.tab_mem_message_iff {name : String} (hname : '\t' ∉ name.toList) (clash : Clash) :
    '\t' ∈ (clash.message name).toList ↔ ∃ text ∈ clash.quoted, '\t' ∈ text.toList := by
  cases clash with
  | helper => exact iff_of_false (notMem_ofList (by decide)) nofun
  | implicitCommand | importedCommand =>
    refine iff_of_false ?_ nofun
    exact fun htab => hname ((mem_framed_iff (by decide) (by decide) _).mp htab)
  | aliasOf command =>
    unfold message
    rw [mem_before_iff (by decide), mem_parted_iff (by decide),
      mem_behind_iff (by decide), or_iff_right hname]
    simp [quoted]

theorem ScriptFault.tab_mem_message_iff (fault : ScriptFault) :
    '\t' ∈ fault.message.toList ↔ (∃ p ∈ fault.position?, '\t' ∈ p.text.toList) ∨
      ∃ text ∈ fault.quoted, '\t' ∈ text.toList := by
  cases fault with
  | secondMain position =>
    unfold message
    rw [mem_before_iff (by decide)]
    simp [position?, quoted]
  | nameClash position name clash =>
    unfold message
    rw [String.toList_append, List.mem_append, mem_before_iff (by decide),
      mem_parted_iff (by decide)]
    by_cases hname : '\t' ∈ name.toList
    · simp [position?, quoted, hname]
    · simp [position?, quoted, hname, clash.tab_mem_message_iff hname]
  | nestedRoot | invalidScript =>
    exact iff_of_false (notMem_ofList (by decide)) (by simp [position?, quoted])
  | noStatusLeft text | strayParameter text =>
    unfold message
    rw [mem_framed_iff (by decide) (by decide)]
    simp [position?, quoted]
  | inNode text | stated text =>
    unfold message
    simp [position?, quoted]

namespace CompileError

theorem tab_mem_at?_iff (position : Option Position) :
    '\t' ∈ (at? position).toList ↔ ∃ p ∈ position, '\t' ∈ p.text.toList := by
  cases position with
  | none => exact iff_of_false (notMem_ofList List.not_mem_nil) (by simp)
  | some p =>
    unfold at?
    rw [mem_before_iff (by decide)]
    simp

/-- A message has a tab exactly if the position that it shows has one, or a text that it quotes. -/
theorem tab_mem_message_iff (e : CompileError) :
    '\t' ∈ e.message.toList ↔ (∃ p ∈ e.shown?, '\t' ∈ p.text.toList) ∨
      ∃ text ∈ e.quoted, '\t' ∈ text.toList := by
  cases e with
  | classification pattern fault =>
    unfold message
    rw [mem_parted_iff (by decide), mem_behind_iff (by decide)]
    simp [shown?, quoted]
  | malformed fault position =>
    unfold message
    rw [mem_parted_iff (by decide), tab_mem_at?_iff, fault.tab_mem_message_iff]
    rfl
  | nestingTooDeep limit position =>
    unfold message
    rw [mem_before_iff (by decide), mem_parted_iff (by decide), tab_mem_at?_iff]
    simp [shown?, quoted, notMem_toDigits]
  | unresolved command position =>
    unfold message
    rw [mem_before_iff (by decide), mem_parted_iff (by decide), tab_mem_at?_iff]
    simp [shown?, quoted]
  | generation fault cause =>
    unfold message
    rw [mem_behind_iff (by decide), fault.tab_mem_message_iff]
    rfl

theorem shown?_moved (f : Position → Position) (e : CompileError) :
    (e.moved f).shown? = e.shown?.map f := by
  have hfault : ∀ fault : ScriptFault, (fault.moved f).position? = fault.position?.map f := by
    intro fault
    cases fault <;> rfl
  cases e with
  | generation fault cause => cases cause <;> exact hfault fault
  | _ => rfl

/-- Where all positions are labelled and the label has no tab, tabs come from quoted texts. -/
theorem tab_mem_message_iff_of_label {label : String} (hlabel : '\t' ∉ label.toList)
    {e : CompileError} (he : e.moved (Position.relabelled (some label)) = e) :
    '\t' ∈ e.message.toList ↔ ∃ text ∈ e.quoted, '\t' ∈ text.toList := by
  rw [tab_mem_message_iff]
  refine or_iff_right ?_
  rintro ⟨p, hp, htab⟩
  rw [← he, shown?_moved] at hp
  obtain ⟨q, -, rfl⟩ := Option.mem_map.mp hp
  obtain ⟨file, hfile, htab⟩ := (Position.tab_mem_text_iff _).mp htab
  obtain rfl : label = file := Option.some.inj hfile
  exact hlabel htab

end CompileError

/-! ## Errors of the grammar -/

/-- An error that quotes names, a token that is no statement, or one that is no parameter. -/
inductive CompileError.Cites (ts : List Token) : CompileError → Prop
  | names {e : CompileError} (h : ∀ text ∈ e.quoted, IsIdentifier text) : Cites ts e
  | stray {t : Token} (mem : t ∈ ts) (kind : t.kind ≠ .comment) :
      Cites ts (faultAt t (.unexpected t.text))
  | parameter {t : Token} (mem : t ∈ ts) : Cites ts (faultAt t (.malformedParameter t.text))

namespace CompileError.Cites

variable {ts us : List Token} {e : CompileError}

theorem mono (h : e.Cites ts) (hsub : ts ⊆ us) : e.Cites us := by
  cases h with
  | names h => exact .names h
  | stray mem kind => exact .stray (hsub mem) kind
  | parameter mem => exact .parameter (hsub mem)

theorem nothing (h : e.quoted = []) : e.Cites ts := .names (by simp [h])

theorem name {t : Token} (ht : t.Clean) (hkind : t.kind = .identifier) (h : e.quoted = [t.text]) :
    e.Cites ts := by
  refine .names fun text htext => ?_
  rw [h, List.mem_singleton] at htext
  rw [htext]
  exact ht.identifier hkind

end CompileError.Cites

namespace Builder

variable {t : Token} {ts : List Token} {e : CompileError}

/-- A comment is a statement wherever it stands. -/
theorem kind_ne_comment_of_stepBy {rules : List Rule} (hrules : Rule.comment ∈ rules) {offset : Nat}
    (h : (stepBy offset (t :: ts) rules).result = .ok none) : t.kind ≠ .comment := by
  intro hkind
  let ends := ts.takeWhile fun u => u.kind = .semicolon
  let rest := ts.dropWhile fun u => u.kind = .semicolon
  have hends : Semicolons ends := fun u hu => by simpa using List.mem_takeWhile_imp hu
  have hcovers : commentPattern.Covers (t :: ends) rest :=
    covers_commentPattern.mpr ⟨t, ends, rfl, hkind, hends, ended_dropWhile ts⟩
  have hts : t :: ends ++ rest = t :: ts := congrArg _ List.takeWhile_append_dropWhile
  rw [Pattern.Covers, hts] at hcovers
  exact stepBy_eq_none_iff.mp h Rule.comment hrules _ hcovers

theorem cites_diagnose (scope : Scope) (ht : t.Clean) (hkind : t.kind ≠ .comment) :
    (faultAt t (scope.diagnose (t :: ts))).Cites (t :: ts) := by
  unfold Scope.diagnose
  dsimp only
  split
  · exact .nothing rfl
  · exact .name ht ‹_› rfl
  · exact .nothing rfl
  · exact .name ht ‹_› rfl
  · exact .nothing rfl
  · exact .stray (List.mem_cons_self ..) hkind

/-- What a builder refuses tokens for, if the rules cite what they refuse. -/
theorem cites_nodesBy {rules : List Rule} (hcomment : Rule.comment ∈ rules)
    (hrules : ∀ rule ∈ rules, ∀ span rest e, rule.pattern.Covers span rest → span ≠ [] →
      (rule.build span).result = .error e → (∀ t ∈ span, t.Clean) → e.Cites span)
    {scope : Scope} {lenient : Bool} {offset : Nat}
    (h : (nodesBy scope lenient rules offset ts).result = .error e) :
    (∀ t ∈ ts, t.Clean) → e.Cites ts := by
  refine error_of_nodesBy (P := fun ts e => (∀ t ∈ ts, t.Clean) → e.Cites ts) ?_ hrules ?_ h
  · intro ts us e hsub hcites hclean
    exact (hcites fun t ht => hclean t (hsub ht)).mono hsub
  · intro t ts offset hnone hclean
    exact cites_diagnose scope (hclean t (List.mem_cons_self ..))
      (kind_ne_comment_of_stepBy hcomment hnone)

/-- The rules for bodies refuse nothing, so only the tokens of no statement are cited. -/
theorem cites_body {lenient : Bool} {offset : Nat}
    (h : (nodesBy .functionBody lenient Rule.body offset ts).result = .error e)
    (hts : ∀ t ∈ ts, t.Clean) : e.Cites ts := by
  refine cites_nodesBy (by simp [Rule.body]) ?_ h hts
  intro rule hrule span rest e hcovers _ herror
  obtain ⟨-, hrefuses⟩ := @agrees_of_mem_rules {} .functionBody rule hrule span rest hcovers
  have hname := (hrefuses e herror).name_eq
  simp only [Rule.body, List.mem_cons, List.not_mem_nil, or_false] at hrule
  obtain rfl | rfl := hrule <;> simp [Rule.invocation, Rule.comment] at hname

theorem cites_build {b : Builder} (hscope : b.scope = .topLevel)
    (h : (b.build ts).result = .error e) (hts : ∀ t ∈ ts, t.Clean) : e.Cites ts := by
  rw [build, result_buildBy, rules, hscope] at h
  refine cites_nodesBy (by simp) ?_ (map_eq_error_iff.mp h) hts
  intro rule hrule span rest e hcovers _ herror hspan
  simp only [List.mem_cons, List.not_mem_nil, or_false] at hrule
  obtain rfl | rfl | rfl := hrule
  · obtain ⟨keyword, name, pairs, ends, k, rfl, -, hname, -⟩ := covers_importPattern.mp hcovers
    obtain ⟨extra, -, rfl⟩ := readImport_error herror
    exact .name (hspan name (by simp)) hname rfl
  · have hname := ((b.comment_agrees span rest hcovers).2 e herror).name_eq
    simp [Rule.comment] at hname
  · obtain ⟨name, front, opener, body, last, ends, rfl, hname, -, -, -, hreason⟩ :=
      cases_of_buildFunction hcovers herror
    obtain ⟨t, ht, rfl⟩ | ⟨extra, -, rfl⟩ | ⟨-, rfl⟩ | ⟨-, hbody⟩ := hreason
    · exact .parameter (by simp [ht])
    · exact .name (hspan name (by simp)) hname rfl
    · exact .nothing rfl
    · exact (cites_body hbody fun t ht => hspan t (by simp [ht])).mono fun t ht => by simp [ht]

end Builder

/-! ## Errors of later stages -/

namespace Program

variable {program : Program}

theorem identifier_of_functionNames (h : ∀ node ∈ program.children, node.AtTopLevel) :
    ∀ name ∈ program.functionNames, IsIdentifier name := by
  intro name hname
  obtain ⟨node, hnode, hnamed⟩ := List.mem_filterMap.mp hname
  cases h node hnode with
  | function hidentifier =>
    cases hnamed
    exact hidentifier
  | _ => cases hnamed

theorem identifier_of_imports (h : ∀ node ∈ program.children, node.AtTopLevel) :
    ∀ declaration ∈ program.imports, IsIdentifier declaration.name := by
  have hflat : program.Flat := fun node hnode => Node.isOuter_of_atTopLevel (h node hnode)
  rw [hflat.imports_eq]
  intro declaration hdeclaration
  obtain ⟨node, hnode, himport⟩ := List.mem_filterMap.mp hdeclaration
  cases h node hnode with
  | importing hidentifier =>
    cases himport
    exact hidentifier
  | _ => cases himport

end Program

namespace Script

variable {valid : String → Bool} {options : Options} {program : Program}

/-- A clash with an alias names an import. -/
theorem identifier_of_clash {implicit helpers : List String} {imports : List Import} {name : String}
    {clash : Clash} (himports : ∀ declaration ∈ imports, IsIdentifier declaration.name)
    (h : clash? implicit imports helpers name = some clash) :
    ∀ text ∈ clash.quoted, IsIdentifier text := by
  cases clash with
  | aliasOf command =>
    have hlookup : Import.lookup imports name = some (.aliasOf command) := by
      unfold clash? at h
      split at h
      · cases h
      split at h
      · cases h
      split at h <;> cases h
      assumption
    obtain ⟨declaration, hmem, hprovides⟩ := List.exists_of_findSome?_eq_some hlookup
    have hcommand : declaration.name = command := by
      unfold Import.provides at hprovides
      split at hprovides
      · cases hprovides
      split at hprovides <;> cases hprovides
      rfl
    intro text htext
    obtain rfl := List.mem_singleton.mp htext
    exact hcommand ▸ himports declaration hmem
  | _ => nofun

/-- Apart from implicit commands, generation quotes names of functions and imports. -/
theorem quoted_of_generateBy (h : program.Writable) (hverify : options.verify = false)
    (hfunctions : ∀ name ∈ program.functionNames, IsIdentifier name)
    (himports : ∀ declaration ∈ program.imports, IsIdentifier declaration.name) {e : CompileError}
    (he : (generateBy valid options program).result = .error e) :
    (∀ text ∈ e.quoted, IsIdentifier text) ∨
      ∃ command ∈ options.implicit, e = noStatus command := by
  obtain ⟨command, hcommand, rfl⟩ | ⟨signature, body, hmem, hfault⟩ | ⟨hjudged, -⟩ :=
    cases_of_generateBy h he
  · obtain himplicit | himported := List.mem_append.mp hcommand
    · exact .inr ⟨command, himplicit, rfl⟩
    · obtain ⟨hname, -⟩ := List.mem_filter.mp (List.mem_eraseDups.mp himported)
      obtain ⟨declaration, hdeclaration, rfl⟩ := List.mem_map.mp hname
      refine .inl fun text htext => ?_
      obtain rfl := List.mem_singleton.mp htext
      exact himports declaration hdeclaration
  · have hname : IsIdentifier signature.name :=
      hfunctions _ (List.mem_filterMap.mpr ⟨_, hmem, rfl⟩)
    obtain rfl | ⟨helpers, clash, hclash, rfl⟩ := hfault
    · exact .inl nofun
    · exact .inl (List.forall_mem_cons.mpr ⟨hname, identifier_of_clash himports hclash⟩)
  · rw [hverify] at hjudged
    cases hjudged

end Script

namespace Compiler

variable {valid : String → Bool} {config : Config} {file : Option String} {source : String}

/-- What an error of a compilation quotes, if the script is not judged. -/
theorem cites_of_compileBy (hverify : config.settings.verifyOutput = false) {e : CompileError}
    (h : (compileBy valid config file source).result = .error e) :
    e.quoted = [] ∨ ∃ ts, (tokens file source).result = .ok ts ∧
      (e.Cites ts ∨ ∃ command ∈ config.commands.implicit, e = Script.noStatus command) := by
  rw [result_compileBy] at h
  obtain htokens | ⟨ts, hts, hscript⟩ := bind_eq_error_iff.mp h
  · rw [result_tokens] at htokens
    obtain ⟨-, p, rfl⟩ := Token.quoted_of_joinStringsFrom (map_eq_error_iff.mp htokens) false
    exact .inl rfl
  refine .inr ⟨ts, hts, ?_⟩
  have hclean := clean_of_tokens hts
  rw [scriptOf_eq] at hscript
  obtain hbuild | ⟨program, hprogram, hscript⟩ := bind_eq_error_iff.mp hscript
  · exact .inl (Builder.cites_build rfl hbuild hclean)
  have hflat := Builder.flat_of_build rfl hprogram
  obtain ⟨command, hcommand, -, rfl⟩ | ⟨-, hgenerate, -⟩ := Program.cases_of_toScript hflat hscript
  · obtain ⟨t, ht, hkind, hname, -⟩ := Builder.namedBy_of_build rfl hprogram command hcommand
    exact .inl (.name (hclean t ht) hkind (congrArg (fun name => [name]) hname.symm))
  · have hparsed : (parse config file source).result = .ok program := by
      rw [result_parse, hts]
      exact hprogram
    have hchildren := atTopLevel_of_parse hparsed
    refine (Script.quoted_of_generateBy (hflat.mapCommands _).writable hverify ?_ ?_
      hgenerate).imp_left .names
    · rw [Program.functionNames_mapCommands]
      exact Program.identifier_of_functionNames hchildren
    · rw [Program.imports_mapCommands]
      exact Program.identifier_of_imports hchildren

end Compiler

end CheckedScript
