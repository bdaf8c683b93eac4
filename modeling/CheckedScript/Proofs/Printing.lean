import CheckedScript.Proofs.Concatenation
import CheckedScript.Proofs.Grouping
import CheckedScript.Proofs.Tree
import CheckedScript.Proofs.WellFormed

/-!
The canonical text of a program, one statement or brace to a line, and its way back. Each line is
lexed by itself into the tokens of what it says, and these tokens are the statement it was written
for, so parsing the text of a program returns the program.

Main result:
* `Compiler.parse_written`: the canonical text of a program parses to it, but for positions.

Comments must hold no line end, as they do if a string literal in them has one.
-/

namespace CheckedScript

/-! ## The canonical text -/

def ValueType.written : ValueType → String
  | string => "string"
  | stringArray => "[]string"

def Import.written (declaration : Import) : String :=
  match declaration.aliasName with
  | none => "import " ++ declaration.name ++ ";"
  | some other => "import " ++ declaration.name ++ " as " ++ other ++ ";"

def Param.written (param : Param) : String := param.name ++ ":" ++ param.type.written

/-- A function up to the brace that opens its body. -/
def Signature.written (signature : Signature) : String :=
  signature.name ++ ":(" ++ ",".intercalate (signature.params.map Param.written) ++ "):" ++
    signature.returnType.elim "" ValueType.written ++ "\x7b"

def Command.written (command : Command) : String :=
  "$" ++ command.name ++ "[" ++ ",".intercalate (command.args.map fun arg => "\"" ++ arg ++ "\"") ++
    "]"

namespace Node

/-- The line of a node that a function body can hold. -/
def innerLine : Node → String
  | invocation command => command.written
  | comment text => "#" ++ text
  | _ => ""

/-- The lines of a node that a program can hold. -/
def outerLines : Node → List String
  | importing declaration => [declaration.written]
  | function signature body => signature.written :: (body.map innerLine ++ ["\x7d"])
  | node => [node.innerLine]

end Node

/-- The lines of the program, each ended by a line end. -/
def Program.written (program : Program) : String :=
  String.join ((program.children.flatMap Node.outerLines).map (· ++ "\n"))

/-! ## Pieces of a line -/

/-- Characters of names do not separate. -/
theorem isSeparator_of_isName {cs : List Char} (h : isName cs = true) :
    ∀ c ∈ cs, isSeparator c = false := by
  intro c hc
  have hchar := alphanum_of_isName h c hc
  rw [Bool.eq_false_iff]
  intro hseparator
  have hmem : c ∈ separators := by simpa [isSeparator] using hseparator
  fin_cases hmem <;> exact absurd hchar (by decide)

theorem ne_nil_of_isName {cs : List Char} (h : isName cs = true) : cs ≠ [] := by
  rintro rfl
  cases h

namespace Token

/-- The rules in front of that for names accept keywords and what is no name. -/
theorem accepts_dropLast {rule : Rule} (h : rule ∈ Rule.standard.dropLast) :
    ∃ text, rule.test = .exact text ∧ (text ∈ keywords ∨ isName text.toList = false) := by
  fin_cases h <;> exact ⟨_, rfl, by decide⟩

theorem classify_of_isIdentifier {text : String} (h : IsIdentifier text) :
    classify Rule.standard text = .identifier := by
  have hothers : Rule.standard.dropLast.find? (fun rule => rule.test.accepts text) = none := by
    refine List.find?_eq_none.mpr fun rule hrule haccepts => ?_
    obtain ⟨other, htest, hother⟩ := accepts_dropLast hrule
    rw [htest, Test.accepts, decide_eq_true_eq] at haccepts
    subst haccepts
    obtain hkeyword | hname := hother
    · exact h.2 hkeyword
    · rw [h.1] at hname
      cases hname
  have hname : Rule.nameRegex.occursIn text.toList = true := by rw [occursIn_nameRegex, h.1]
  have hrules : Rule.standard =
      Rule.standard.dropLast ++ [⟨.pattern Rule.nameRegex, .identifier⟩] := rfl
  rw [classify, hrules, List.find?_append, hothers, Option.none_or,
    List.find?_cons_of_pos (by exact hname)]

/-- The token of a name. -/
def named (name : String) : Token := ⟨.identifier, name, {}⟩

theorem bare_name {name : String} (h : IsIdentifier name) : bare name.toList = named name := by
  rw [bare, ofFragment, String.ofList_toList, classify_of_isIdentifier h]
  rfl

/-! ## Groups of a line -/

/-- The text is grouped into the tokens. -/
def Groups (cs : List Char) (ts : List Token) : Prop :=
  group ((Fragment.split cs).map bare) = .ok ts

namespace Groups

variable {cs : List Char} {ts : List Token}

theorem mark (c : Char) (hc : isSeparator c = true ∧ c ≠ '"' ∧ c ≠ '#') (h : Groups cs ts) :
    Groups (c :: cs) (bare [c] :: ts) := by
  obtain ⟨hseparator, hquote, hhash⟩ := hc
  have hne : ∀ d, c ≠ d → [c] ≠ [d] := fun d hd heq => hd (List.cons.inj heq).1
  have hrest : group ((Fragment.split cs).map bare) = .ok ts := h
  rw [Groups, Fragment.split, Fragment.attach_separator hseparator, List.map_cons,
    group_cons (mt kind_bare_quote.mp (hne _ hquote)) (mt kind_bare_hash.mp (hne _ hhash)), hrest]
  rfl

/-- A word up to a separator. -/
theorem word (text : String) (htext : isName text.toList = true)
    (hcs : cs.head?.all isSeparator = true) (h : Groups cs ts) :
    Groups (text.toList ++ cs) (bare text.toList :: ts) := by
  have hrun := isSeparator_of_isName htext
  have hother : ∀ d : Char, isSeparator d = true → text.toList ≠ [d] := by
    intro d hd heq
    rw [hrun d (by rw [heq]; exact List.mem_singleton_self d)] at hd
    cases hd
  have hrest : group ((Fragment.split cs).map bare) = .ok ts := h
  rw [Groups, Fragment.split_run (ne_nil_of_isName htext) hrun ((Option.all_eq_true ..).mp hcs),
    List.map_cons, group_cons (mt kind_bare_quote.mp (hother _ (by decide)))
      (mt kind_bare_hash.mp (hother _ (by decide))), hrest]
  rfl

theorem name {name : String} (hname : IsIdentifier name)
    (hcs : cs.head?.all isSeparator = true) (h : Groups cs ts) :
    Groups (name.toList ++ cs) (named name :: ts) := by
  rw [← bare_name hname]
  exact h.word name hname.1 hcs

theorem literal {text : String} (htext : IsPlain text) (h : Groups cs ts) :
    Groups ('"' :: (text.toList ++ '"' :: cs)) (⟨.stringLiteral, text, {}⟩ :: ts) := by
  have hquote : isSeparator '"' = true := by decide
  have hrest : group ((Fragment.split cs).map bare) = .ok ts := h
  have hhead : ∀ c ∈ ('"' :: cs).head?, isSeparator c = true := by
    rintro c ⟨⟩
    exact hquote
  rw [Groups, Fragment.split, Fragment.attach_separator hquote, Fragment.split_append (.inr hhead),
    Fragment.split, Fragment.attach_separator hquote, List.map_cons, List.map_append, List.map_cons,
    group_literal (kind_bare_quote.mpr rfl) (kind_ne_quote htext) (kind_bare_quote.mpr rfl), hrest,
    merge_bare _ _ rfl, String.ofList_toList]
  rfl

/-- A comment with the line end behind it. -/
theorem comment {text : String} (htext : IsPlain text) (hline : '\n' ∉ text.toList)
    (h : Groups cs ts) :
    Groups ('#' :: (text.toList ++ '\n' :: cs)) (⟨.comment, text, {}⟩ :: bare ['\n'] :: ts) := by
  have hhash : isSeparator '#' = true := by decide
  have hline' : isSeparator '\n' = true := by decide
  have hhead : ∀ c ∈ ('\n' :: cs).head?, isSeparator c = true := by
    rintro c ⟨⟩
    exact hline'
  have hend : ∀ t ∈ (bare ['\n'] :: (Fragment.split cs).map bare).head?, t.kind = .newLine := by
    rintro t ⟨⟩
    exact kind_bare_lineEnd.mpr rfl
  have hrest : group ((Fragment.split cs).map bare) = .ok ts := h
  rw [Groups, Fragment.split, Fragment.attach_separator hhash, Fragment.split_append (.inr hhead),
    Fragment.split, Fragment.attach_separator hline', List.map_cons, List.map_append, List.map_cons,
    group_comment (kind_bare_hash.mpr rfl) (kind_ne_quote htext) (kind_ne_lineEnd hline) hend,
    group_cons (by decide) (by decide), hrest, merge_bare _ _ rfl, String.ofList_toList]
  rfl

/-- Items of a list, set apart by commas. -/
theorem items {α : Type} {text : α → List Char} {tokens : α → List Token} {items : List α}
    (hitem : ∀ item ∈ items, ∀ cs ts, cs.head?.all isSeparator = true → Groups cs ts →
      Groups (text item ++ cs) (tokens item ++ ts))
    (hcs : cs.head?.all isSeparator = true) (h : Groups cs ts) :
    Groups ([','].intercalate (items.map text) ++ cs)
      ([bare [',']].intercalate (items.map tokens) ++ ts) := by
  induction items with
  | nil => exact h
  | cons item items ih =>
    obtain ⟨hfirst, hitems⟩ := List.forall_mem_cons.mp hitem
    cases items with
    | nil =>
      simp only [List.map_singleton, List.intercalate_singleton]
      exact hfirst cs ts hcs h
    | cons next items =>
      have hrest := (ih hitems).mark ',' (by decide)
      simp only [List.map_cons, List.intercalate_cons_cons, List.append_assoc] at hrest ⊢
      exact hfirst _ _ rfl hrest

end Groups

theorem mem_separated {α : Type} {mark t : Token} {tokens : α → List Token} {items : List α}
    (h : t ∈ [mark].intercalate (items.map tokens)) :
    t = mark ∨ ∃ item ∈ items, t ∈ tokens item := by
  induction items with
  | nil => cases h
  | cons item items ih =>
    cases items with
    | nil =>
      simp only [List.map_singleton, List.intercalate_singleton] at h
      exact .inr ⟨item, by simp, h⟩
    | cons next items =>
      simp only [List.map_cons, List.intercalate_cons_cons, List.append_assoc, List.mem_append,
        List.mem_singleton] at h ih
      obtain h | h | h := h
      · exact .inr ⟨item, by simp, h⟩
      · exact .inl h
      · obtain hmark | ⟨other, hother, ht⟩ := ih h
        · exact .inl hmark
        · exact .inr ⟨other, List.mem_cons_of_mem _ hother, ht⟩

/-! ## Types and parameters -/

/-- The token that a type becomes. -/
def typed : ValueType → Token
  | .string => ⟨.stringType, "string", {}⟩
  | .stringArray => ⟨.stringArrayType, "[]string", {}⟩

/-- The tokens that the pass over array types makes one type. -/
def typeParts : ValueType → List Token
  | .string => [bare "string".toList]
  | .stringArray => [bare ['['], bare [']'], bare "string".toList]

theorem Groups.type (type : ValueType) {cs : List Char} {ts : List Token}
    (hcs : cs.head?.all isSeparator = true) (h : Groups cs ts) :
    Groups (type.written.toList ++ cs) (typeParts type ++ ts) := by
  have hstring : Groups ("string".toList ++ cs) (bare "string".toList :: ts) :=
    h.word "string" rfl hcs
  cases type with
  | string => exact hstring
  | stringArray => exact (hstring.mark ']' (by decide)).mark '[' (by decide)

theorem joinArrayTypes_typeParts (type : ValueType) (ts : List Token) :
    joinArrayTypes (typeParts type ++ ts) = typed type :: joinArrayTypes ts := by
  cases type with
  | string =>
    have hopen : (bare "string".toList).kind ≠ .openSquare := by decide
    exact joinArrayTypes_of_ne hopen ts
  | stringArray => rfl

/-- The tokens between the parentheses of a function. -/
def paramTokens (type : ValueType → List Token) (params : List Param) : List Token :=
  [bare [',']].intercalate
    (params.map fun param => named param.name :: bare [':'] :: type param.type)

theorem Groups.params {params : List Param} (hparams : ∀ param ∈ params, IsIdentifier param.name)
    {cs : List Char} {ts : List Token} (hcs : cs.head?.all isSeparator = true)
    (h : Groups cs ts) :
    Groups ((",".intercalate (params.map Param.written)).toList ++ cs)
      (paramTokens typeParts params ++ ts) := by
  rw [String.toList_intercalate, List.map_map]
  refine Groups.items (fun param hparam cs ts hcs h => ?_) hcs h
  have hcolon := (h.type param.type hcs).mark ':' (by decide)
  have hname := hcolon.name (hparams param hparam) rfl
  simpa [Param.written] using hname

theorem joinArrayTypes_params (params : List Param) (ts : List Token) :
    joinArrayTypes (paramTokens typeParts params ++ ts) =
      paramTokens (fun type => [typed type]) params ++ joinArrayTypes ts := by
  have hname : ∀ name, (named name).kind ≠ .openSquare := fun _ => nofun
  have hcolon : (bare [':']).kind ≠ .openSquare := by decide
  have hcomma : (bare [',']).kind ≠ .openSquare := by decide
  have hparam : ∀ (param : Param) (us : List Token),
      joinArrayTypes (named param.name :: bare [':'] :: (typeParts param.type ++ us)) =
        named param.name :: bare [':'] :: typed param.type :: joinArrayTypes us := by
    intro param us
    rw [joinArrayTypes_of_ne (hname _), joinArrayTypes_of_ne hcolon, joinArrayTypes_typeParts]
  unfold paramTokens
  induction params with
  | nil => rfl
  | cons param params ih =>
    cases params with
    | nil =>
      simp only [List.map_singleton, List.intercalate_singleton]
      exact hparam param ts
    | cons next params =>
      simp only [List.map_cons, List.intercalate_cons_cons, List.append_assoc, List.cons_append,
        List.nil_append] at ih ⊢
      rw [hparam, joinArrayTypes_of_ne hcomma, ih]

theorem typeKind_typed (type : ValueType) : Grammar.TypeKind (typed type).kind type := by
  cases type with
  | string => exact .string
  | stringArray => exact .stringArray

theorem params_paramTokens (params : List Param) :
    Grammar.Params (paramTokens (fun type => [typed type]) params) params := by
  have hparam : ∀ (param : Param) (us : List Token) (others : List Param),
      Grammar.Params us others → Grammar.Params
        (named param.name :: bare [':'] :: typed param.type :: us) (param :: others) := by
    intro param us others h
    exact @Grammar.Params.param (named param.name) _ [bare [':']] us _ others rfl (by decide)
      (typeKind_typed param.type) h
  unfold paramTokens
  induction params with
  | nil => exact .nil
  | cons param params ih =>
    cases params with
    | nil => exact hparam param [] [] .nil
    | cons next params =>
      simp only [List.map_cons, List.intercalate_cons_cons, List.cons_append, List.nil_append]
        at ih ⊢
      exact hparam param _ _ (.separator (.inl rfl) ih)

/-! ## Lines -/

/-- The semicolon that the end of a line becomes. -/
def lineEnd : Token := ⟨.semicolon, ";", {}⟩

/-- The line is lexed into the tokens. -/
def Lexes (line : String) (ts : List Token) : Prop :=
  layOut ((Fragment.split (line.toList ++ ['\n'])).map bare) = .ok ts

theorem endStatementsAfter_of_ne {ts : List Token} (h : ∀ t ∈ ts, t.kind ≠ .newLine)
    (previous : Option Kind) : endStatementsAfter previous ts = ts := by
  induction ts generalizing previous with
  | nil => rfl
  | cons t ts ih =>
    obtain ⟨ht, hts⟩ := List.forall_mem_cons.mp h
    rw [endStatementsAfter_cons, ih hts, ended, if_neg fun hline => ht hline.1]

/-- What the later passes make of the groups of a line. -/
theorem lexes_of_groups {line : String} {ts laid : List Token}
    (hgroups : Groups (line.toList ++ ['\n']) (ts ++ [bare ['\n']]))
    (hlaid : joinArrayTypes ts = laid) (hline : laid.all (·.kind ≠ .newLine) = true) :
    Lexes line (dropBlanks laid ++
      if (settled none laid).all Kind.continues then [] else [lineEnd]) := by
  have hapart := apart_cons (t := bare ['\n']) (by decide) (by decide) ts []
  have hlast : dropBlanks (endStatementsAfter (settled none laid) [bare ['\n']]) =
      if (settled none laid).all Kind.continues then [] else [lineEnd] := by
    rw [endStatementsAfter_cons, ended]
    by_cases hcontinues : (settled none laid).all Kind.continues = true
    · rw [if_neg (by simp [hcontinues]), if_pos hcontinues]
      rfl
    · rw [if_pos ⟨kind_bare_lineEnd.mpr rfl, hcontinues⟩, if_neg hcontinues]
      rfl
  have hall : dropBlanks (endStatements (joinArrayTypes (ts ++ [bare ['\n']]))) =
      dropBlanks laid ++ if (settled none laid).all Kind.continues then [] else [lineEnd] := by
    rw [joinArrayTypes_append hapart, hlaid, endStatements, endStatementsAfter_append,
      endStatementsAfter_of_ne (by simpa using hline), dropBlanks_append, ← hlast]
    rfl
  have hgroup : group ((Fragment.split (line.toList ++ ['\n'])).map bare) =
      .ok (ts ++ [bare ['\n']]) := hgroups
  rw [Lexes, layOut, hgroup]
  exact congrArg Except.ok hall

theorem lexes_import {name : String} (hname : IsIdentifier name) :
    Lexes ("import " ++ name ++ ";") [bare "import".toList, named name, bare [';']] := by
  have hend : Groups [';', '\n'] [bare [';'], bare ['\n']] := rfl
  have hline := ((hend.name hname rfl).mark ' ' (by decide)).word "import" rfl rfl
  have hgroups : Groups (("import " ++ name ++ ";").toList ++ ['\n'])
      ([bare "import".toList, bare [' '], named name, bare [';']] ++ [bare ['\n']]) := by
    simpa using hline
  exact lexes_of_groups hgroups rfl rfl

theorem lexes_import_alias {name other : String} (hname : IsIdentifier name)
    (hother : IsIdentifier other) :
    Lexes ("import " ++ name ++ " as " ++ other ++ ";")
      [bare "import".toList, named name, bare "as".toList, named other, bare [';']] := by
  have hend : Groups [';', '\n'] [bare [';'], bare ['\n']] := rfl
  have has := ((hend.name hother rfl).mark ' ' (by decide)).word "as" rfl rfl
  have hname := ((has.mark ' ' (by decide)).name hname rfl).mark ' ' (by decide)
  have hgroups : Groups (("import " ++ name ++ " as " ++ other ++ ";").toList ++ ['\n'])
      ([bare "import".toList, bare [' '], named name, bare [' '], bare "as".toList, bare [' '],
        named other, bare [';']] ++ [bare ['\n']]) := by
    simpa using hname.word "import" rfl rfl
  exact lexes_of_groups hgroups rfl rfl

theorem lexes_comment {text : String} (htext : IsPlain text) (hline : '\n' ∉ text.toList) :
    Lexes ("#" ++ text) [⟨.comment, text, {}⟩, lineEnd] := by
  have hnil : Groups [] [] := rfl
  have hgroups : Groups (("#" ++ text).toList ++ ['\n'])
      ([⟨.comment, text, {}⟩] ++ [bare ['\n']]) := by
    simpa using hnil.comment htext hline
  exact lexes_of_groups hgroups rfl rfl

theorem lexes_closeBrace : Lexes "\x7d" [bare ['\x7d'], lineEnd] := rfl

/-- A line of tokens of kinds that are no blanks. -/
theorem lexes_of_kinds {line : String} {ts laid : List Token} {last : Token}
    (hgroups : Groups (line.toList ++ ['\n']) (ts ++ [bare ['\n']]))
    (hlaid : joinArrayTypes ts = laid ++ [last])
    (hblank : ∀ t ∈ laid ++ [last], t.kind.isBlank = false) :
    Lexes line (laid ++ last :: if last.kind.continues then [] else [lineEnd]) := by
  have hline : (laid ++ [last]).all (·.kind ≠ .newLine) = true := by
    simp only [List.all_eq_true, decide_eq_true_eq]
    intro t ht hkind
    have hblank := hblank t ht
    rw [hkind] at hblank
    cases hblank
  have hlast : last.kind.isBlank = false := hblank last (by simp)
  have hsettled : settled none (laid ++ [last]) = some last.kind := by
    rw [settled_append_cons, settle_of_not_blank (by rw [hlast]; decide)]
    rfl
  have hkept : dropBlanks (laid ++ [last]) = laid ++ [last] := by
    refine List.filter_eq_self.mpr fun t ht => ?_
    rw [hblank t ht]
    rfl
  have h := lexes_of_groups hgroups hlaid hline
  rw [hsettled, hkept, List.append_assoc] at h
  exact h

/-- The tokens between the brackets of a command. -/
def argTokens (args : List String) : List Token :=
  [bare [',']].intercalate (args.map fun arg => [⟨.stringLiteral, arg, {}⟩])

theorem mem_argTokens {args : List String} {t : Token} (h : t ∈ argTokens args) :
    t = bare [','] ∨ ∃ arg ∈ args, t = ⟨.stringLiteral, arg, {}⟩ := by
  simpa using mem_separated h

theorem joinArrayTypes_of_no_types {ts : List Token} (h : ∀ t ∈ ts, t.kind ≠ .stringType) :
    joinArrayTypes ts = ts := by
  induction ts with
  | nil => rfl
  | cons t ts ih =>
    obtain ⟨-, hts⟩ := List.forall_mem_cons.mp h
    rw [joinArrayTypes_cons, ih hts]
    rintro b c rest rfl ⟨-, -, htype⟩
    exact hts c (by simp) htype

theorem lexes_command {command : Command} (hname : IsIdentifier command.name)
    (hargs : ∀ arg ∈ command.args, IsPlain arg) :
    Lexes command.written (bare ['$'] :: named command.name :: bare ['['] ::
      (argTokens command.args ++ [bare [']'], lineEnd])) := by
  have hend : Groups [']', '\n'] [bare [']'], bare ['\n']] := rfl
  have hinside : Groups
      ((",".intercalate (command.args.map fun arg => "\"" ++ arg ++ "\"")).toList ++ [']', '\n'])
      (argTokens command.args ++ [bare [']'], bare ['\n']]) := by
    rw [String.toList_intercalate, List.map_map]
    refine Groups.items (fun arg harg cs ts _ h => ?_) rfl hend
    simpa using h.literal (hargs arg harg)
  have hgroups : Groups (command.written.toList ++ ['\n'])
      ((bare ['$'] :: named command.name :: bare ['['] :: argTokens command.args) ++ [bare [']']] ++
        [bare ['\n']]) := by
    have hline := ((hinside.mark '[' (by decide)).name hname rfl).mark '$' (by decide)
    simpa [Command.written] using hline
  have hkinds : ∀ t ∈ (bare ['$'] :: named command.name :: bare ['['] :: argTokens command.args) ++
      [bare [']']], t.kind.isBlank = false ∧ t.kind ≠ .stringType := by
    simp only [List.cons_append, List.forall_mem_cons, List.forall_mem_append]
    refine ⟨by decide, ⟨rfl, nofun⟩, by decide, fun t ht => ?_, by decide, by simp⟩
    obtain rfl | ⟨arg, -, rfl⟩ := mem_argTokens ht
    · decide
    · exact ⟨rfl, nofun⟩
  exact lexes_of_kinds hgroups (joinArrayTypes_of_no_types fun t ht => (hkinds t ht).2)
    fun t ht => (hkinds t ht).1

/-- The tokens of a function up to the brace that opens its body, its types of `type`. -/
def signatureTokens (type : ValueType → List Token) (signature : Signature) : List Token :=
  named signature.name :: bare [':'] :: bare ['('] ::
    (paramTokens type signature.params ++ bare [')'] :: bare [':'] ::
      signature.returnType.elim [] type)

theorem joinArrayTypes_signature (signature : Signature) (ts : List Token) :
    joinArrayTypes (signatureTokens typeParts signature ++ ts) =
      signatureTokens (fun type => [typed type]) signature ++ joinArrayTypes ts := by
  have hreturn : joinArrayTypes (signature.returnType.elim [] typeParts ++ ts) =
      signature.returnType.elim [] (fun type => [typed type]) ++ joinArrayTypes ts := by
    cases signature.returnType with
    | none => rfl
    | some type => exact joinArrayTypes_typeParts type ts
  have hname : (named signature.name).kind ≠ .openSquare := nofun
  have hcolon : (bare [':']).kind ≠ .openSquare := by decide
  have hopen : (bare ['(']).kind ≠ .openSquare := by decide
  have hclose : (bare [')']).kind ≠ .openSquare := by decide
  simp only [signatureTokens, List.cons_append, List.append_assoc]
  rw [joinArrayTypes_of_ne hname, joinArrayTypes_of_ne hcolon, joinArrayTypes_of_ne hopen,
    joinArrayTypes_params, joinArrayTypes_of_ne hclose, joinArrayTypes_of_ne hcolon, hreturn]

theorem lexes_signature {signature : Signature} (hname : IsIdentifier signature.name)
    (hparams : ∀ param ∈ signature.params, IsIdentifier param.name) :
    Lexes signature.written
      (signatureTokens (fun type => [typed type]) signature ++ [bare ['\x7b']]) := by
  have hend : Groups ['\x7b', '\n'] [bare ['\x7b'], bare ['\n']] := rfl
  have hreturn : Groups ((signature.returnType.elim "" ValueType.written).toList ++ ['\x7b', '\n'])
      (signature.returnType.elim [] typeParts ++ [bare ['\x7b'], bare ['\n']]) := by
    cases signature.returnType with
    | none => exact hend
    | some type => exact hend.type type rfl
  have hinside := ((hreturn.mark ':' (by decide)).mark ')' (by decide)).params hparams rfl
  have hgroups : Groups (signature.written.toList ++ ['\n'])
      (signatureTokens typeParts signature ++ [bare ['\x7b']] ++ [bare ['\n']]) := by
    have hline := ((hinside.mark '(' (by decide)).mark ':' (by decide)).name hname rfl
    simpa [Signature.written, signatureTokens] using hline
  have htype : ∀ type, (typed type).kind.isBlank = false := by
    intro type
    cases type <;> rfl
  have hblank : ∀ t ∈ signatureTokens (fun type => [typed type]) signature ++ [bare ['\x7b']],
      t.kind.isBlank = false := by
    simp only [signatureTokens, List.cons_append, List.append_assoc, List.forall_mem_cons,
      List.forall_mem_append]
    refine ⟨rfl, rfl, rfl, fun t ht => ?_, rfl, rfl, ?_, rfl, by simp⟩
    · obtain rfl | ⟨param, -, ht⟩ := mem_separated ht
      · rfl
      · simp only [List.mem_cons, List.not_mem_nil, or_false] at ht
        obtain rfl | rfl | rfl := ht
        · rfl
        · rfl
        · exact htype param.type
    · cases signature.returnType with
      | none => simp
      | some type => simpa using htype type
  exact lexes_of_kinds hgroups (joinArrayTypes_signature signature _) hblank

/-- Lines are lexed one by one. -/
theorem layOut_join {lines : List String} {tss : List (List Token)}
    (h : List.Forall₂ Lexes lines tss) :
    layOut ((Fragment.split (String.join (lines.map (· ++ "\n"))).toList).map bare) =
      .ok tss.flatten := by
  induction h with
  | nil => rfl
  | @cons line ts lines tss hline _ ih =>
    have hlast : ∀ c ∈ (line.toList ++ ['\n']).getLast?, isSeparator c = true := by
      rw [List.getLast?_concat]
      rintro c ⟨⟩
      decide
    have hhead : ∀ c ∈ ['\n'].head?, isSeparator c = true := by
      rintro c ⟨⟩
      decide
    have htext : (String.join ((line :: lines).map (· ++ "\n"))).toList =
        line.toList ++ ['\n'] ++ (String.join (lines.map (· ++ "\n"))).toList := by
      rw [List.map_cons, String.join_cons, String.toList_append, String.toList_append]
      rfl
    have hsplit : (Fragment.split (line.toList ++ ['\n'])).map bare =
        (Fragment.split line.toList).map bare ++ [bare ['\n']] := by
      rw [Fragment.split_append (.inr hhead), List.map_append]
      rfl
    rw [Lexes, hsplit] at hline
    rw [htext, Fragment.split_append (.inl hlast), List.map_append, hsplit, List.append_assoc,
      List.singleton_append, layOut_lineEnd (kind_bare_lineEnd.mpr rfl) hline, ih]
    rfl

end Token

/-! ## Statements -/

open Grammar Token

theorem Pattern.balanced_of_not_mem {opener closer : Kind} {kinds : List Kind}
    (hopener : opener ∉ kinds) (hcloser : closer ∉ kinds) : Balanced opener closer kinds where
  front front hfront := by
    have hcount : front.count closer = 0 :=
      List.count_eq_zero.mpr fun hmem => hcloser (hfront.subset hmem)
    omega
  whole := by rw [List.count_eq_zero.mpr hopener, List.count_eq_zero.mpr hcloser]

theorem arguments_argTokens (args : List String) : arguments (argTokens args) = args := by
  have hcons : ∀ arg us, arguments (⟨.stringLiteral, arg, {}⟩ :: us) = arg :: arguments us :=
    fun _ _ => rfl
  have hcomma : ∀ us, arguments (bare [','] :: us) = arguments us := fun _ => rfl
  unfold argTokens
  induction args with
  | nil => rfl
  | cons arg args ih =>
    cases args with
    | nil => rfl
    | cons next args =>
      simp only [List.map_cons, List.intercalate_cons_cons, List.cons_append, List.nil_append]
        at ih ⊢
      rw [hcons, hcomma, ih]

namespace Node

/-- A line of a body is lexed into its statement, which has no braces. -/
theorem exists_lexes_inner {node : Node} (h : node.InBody)
    (hline : ∀ text, node = comment text → '\n' ∉ text.toList) :
    ∃ ts, Lexes node.innerLine ts ∧ InnerStatement ts (node.moved Position.forget) ∧
      ∀ t ∈ ts, t.kind ≠ .openBrace ∧ t.kind ≠ .closeBrace := by
  cases h with
  | @invocation command hname hargs =>
    refine ⟨_, lexes_command hname hargs, .inl ?_, ?_⟩
    · have hinside : ∀ t ∈ argTokens command.args, t.kind ≠ .closeSquare := by
        intro t ht
        obtain rfl | ⟨arg, -, rfl⟩ := mem_argTokens ht
        · decide
        · simp
      have hstatement := @InvocationStatement.intro (bare ['$']) (named command.name) (bare ['['])
        (bare [']']) (argTokens command.args) [lineEnd] rfl rfl rfl hinside rfl
        (by simp [Semicolons, lineEnd])
      rw [arguments_argTokens] at hstatement
      exact hstatement
    · simp only [List.forall_mem_cons, List.forall_mem_append]
      refine ⟨by decide, by simp [named], by decide, fun t ht => ?_, by decide, by decide, by simp⟩
      obtain rfl | ⟨arg, -, rfl⟩ := mem_argTokens ht
      · decide
      · simp
  | @comment text hplain =>
    refine ⟨_, lexes_comment hplain (hline text rfl), .inr (.intro rfl ?_), ?_⟩
    · simp [Semicolons, lineEnd]
    · simp only [List.forall_mem_cons]
      exact ⟨by simp, by decide, by simp⟩

theorem exists_lexes_body {body : List Node} (h : ∀ node ∈ body, node.InBody)
    (hline : ∀ text, comment text ∈ body → '\n' ∉ text.toList) :
    ∃ tss, List.Forall₂ Lexes (body.map innerLine) tss ∧
      Statements InnerStatement tss.flatten (body.map (moved Position.forget)) ∧
      ∀ t ∈ tss.flatten, t.kind ≠ .openBrace ∧ t.kind ≠ .closeBrace := by
  induction body with
  | nil => exact ⟨[], .nil, .nil, by simp⟩
  | cons node body ih =>
    obtain ⟨hnode, hbody⟩ := List.forall_mem_cons.mp h
    obtain ⟨tss, hlexes, hstatements, hbraces⟩ :=
      ih hbody fun text htext => hline text (List.mem_cons_of_mem _ htext)
    obtain ⟨ts, hlex, hstatement, hbrace⟩ := exists_lexes_inner hnode fun text htext =>
      hline text (by rw [htext]; exact List.mem_cons_self ..)
    exact ⟨ts :: tss, .cons hlex hlexes, .statement hstatement hstatements,
      List.forall_mem_append.mpr ⟨hbrace, hbraces⟩⟩

/-- The lines of a statement at top level are lexed into it. -/
theorem exists_lexes_outer {node : Node} (h : node.AtTopLevel)
    (hline : ∀ text, comment text ∈ node.nodes → '\n' ∉ text.toList) {b : Builder}
    (hdepth : b.depth + 1 ≤ b.options.maxDepth) :
    ∃ tss, List.Forall₂ Lexes node.outerLines tss ∧
      OuterStatement b.Body tss.flatten (node.moved Position.forget) := by
  cases h with
  | @importing declaration hname hother =>
    obtain ⟨name, other, position⟩ := declaration
    cases other with
    | none =>
      refine ⟨_, .cons (lexes_import hname) .nil, .inl ?_⟩
      exact .plain (by decide) rfl (by simp) (by simp [Semicolons]; decide)
    | some other =>
      refine ⟨_, .cons (lexes_import_alias hname (hother other rfl)) .nil, .inl ?_⟩
      exact .aliased (by decide) rfl (by decide) rfl (by simp) (by simp [Semicolons]; decide)
  | @comment text hplain =>
    refine ⟨_, .cons (lexes_comment hplain (hline text (by simp [nodes]))) .nil, .inr (.inl ?_)⟩
    exact .intro rfl (by simp [Semicolons, lineEnd])
  | @function signature body hname hparams hbody =>
    have hinner : ∀ text, comment text ∈ body → '\n' ∉ text.toList := by
      intro text htext
      refine hline text (List.mem_cons_of_mem _ ?_)
      rw [nodesAmong_eq]
      exact List.mem_flatMap.mpr ⟨_, htext, List.mem_cons_self ..⟩
    obtain ⟨tss, hlexes, hstatements, hbraces⟩ := exists_lexes_body hbody hinner
    have hbalanced : Pattern.Balanced .openBrace .closeBrace (tss.flatten.map (·.kind)) := by
      refine Pattern.balanced_of_not_mem ?_ ?_
      · intro hmem
        obtain ⟨t, ht, hkind⟩ := List.mem_map.mp hmem
        exact (hbraces t ht).1 hkind
      · intro hmem
        obtain ⟨t, ht, hkind⟩ := List.mem_map.mp hmem
        exact (hbraces t ht).2 hkind
    have hreturn : ReturnType (signature.returnType.elim [] fun type => [typed type])
        signature.returnType := by
      cases signature.returnType with
      | none => exact .none
      | some type => exact .some (typeKind_typed type)
    have hbuilt : b.Body tss.flatten (body.map (moved Position.forget)) := by
      refine ⟨hdepth, ?_⟩
      have hnodes := Builder.result_nodesBy_append Builder.body_steps Builder.inner_terminated
        .functionBody b.options.lenient 0 0 hstatements []
      rw [List.append_nil, Builder.result_nodesBy_nil] at hnodes
      exact hnodes.trans (congrArg Except.ok (List.append_nil _))
    refine ⟨_, .cons (lexes_signature hname hparams)
      (List.rel_append hlexes (.cons lexes_closeBrace .nil)), .inr (.inr ?_)⟩
    have hstatement := @FunctionStatement.intro b.Body (named signature.name) (bare [':'])
      (bare ['(']) (bare [')']) (bare [':']) (bare ['\x7b']) (bare ['\x7d'])
      (paramTokens (fun type => [typed type]) signature.params) _ tss.flatten [lineEnd] _ _ _ rfl
      rfl rfl (params_paramTokens signature.params) rfl rfl hreturn rfl hbalanced hbuilt rfl
      (by simp [Semicolons, lineEnd])
    simp only [moved_function, signatureTokens, List.flatten_cons, List.flatten_append,
      List.flatten_nil, List.append_nil, List.cons_append, List.append_assoc, List.nil_append]
    exact hstatement

theorem exists_lexes {nodes : List Node} (h : ∀ node ∈ nodes, node.AtTopLevel)
    (hline : ∀ node ∈ nodes, ∀ text, comment text ∈ node.nodes → '\n' ∉ text.toList) {b : Builder}
    (hdepth : b.depth + 1 ≤ b.options.maxDepth) :
    ∃ tss, List.Forall₂ Lexes (nodes.flatMap outerLines) tss ∧
      Statements (OuterStatement b.Body) tss.flatten (nodes.map (moved Position.forget)) := by
  induction nodes with
  | nil => exact ⟨[], .nil, .nil⟩
  | cons node nodes ih =>
    obtain ⟨hnode, hnodes⟩ := List.forall_mem_cons.mp h
    obtain ⟨hfirst, hothers⟩ := List.forall_mem_cons.mp hline
    obtain ⟨tss, hlexes, hstatements⟩ := ih hnodes hothers
    obtain ⟨ts, hlex, hstatement⟩ := exists_lexes_outer hnode hfirst hdepth
    refine ⟨ts ++ tss, List.rel_append hlex hlexes, ?_⟩
    rw [List.flatten_append, List.map_cons]
    exact .statement hstatement hstatements

end Node

namespace Compiler

/-- The canonical text of a program parses to it, whether what does not match is skipped or not.
Names are identifiers, neither arguments nor comments hold a quote, and comments hold no line
end. -/
theorem parse_written (config : Config) (hdepth : 1 ≤ config.settings.maxDepth)
    (file : Option String) (program : Program)
    (hwell : ∀ node ∈ program.children, node.AtTopLevel)
    (hline : ∀ node ∈ program.children, ∀ text, Node.comment text ∈ node.nodes →
      '\n' ∉ text.toList) :
    ∃ parsed, (parse config file program.written).result = .ok parsed ∧
      parsed.moved Position.forget = program.moved Position.forget := by
  let b : Builder := { options := config.buildOptions }
  have hdepth : b.depth + 1 ≤ b.options.maxDepth := hdepth
  obtain ⟨tss, hlexes, hstatements⟩ := Node.exists_lexes hwell hline hdepth
  have hbuild : (b.build tss.flatten).result = .ok (program.moved Position.forget) := by
    have hnodes := Builder.result_nodesBy_append (Builder.rules_steps rfl)
      (Builder.outer_terminated b) b.scope b.options.lenient 0 0 hstatements []
    rw [List.append_nil, Builder.result_nodesBy_nil] at hnodes
    rw [Builder.build, Builder.result_buildBy, hnodes]
    exact congrArg (fun children => Except.ok (Program.mk children)) (List.append_nil _)
  have hparse := result_parse_forget config file program.written
  rw [Program.written, layOut_join hlexes] at hparse
  have hparse : mapBoth (CompileError.moved Position.forget) (Program.moved Position.forget)
      (parse config file program.written).result = .ok (program.moved Position.forget) :=
    hparse.trans hbuild
  exact mapBoth_eq_ok_iff.mp hparse

/-- An array type, arguments with a brace, a line end and nothing in them, and an empty comment. -/
theorem parse_written_sample :
    ∃ parsed, (parse { settings := { lenient := true, maxDepth := 1 } } none
      ("import ls as list;\n#\nf:(a:[]string,b:string):string\x7b\n" ++
        "$list[\"x\n\x7d\",\"\"]\n# c\n\x7d\n")).result = .ok parsed ∧
      parsed.moved Position.forget = ⟨[.importing ⟨"ls", some "list", {}⟩, .comment "",
        .function ⟨"f", [⟨"a", .stringArray⟩, ⟨"b", .string⟩], some .string, {}⟩
          [.invocation ⟨"list", ["x\n\x7d", ""], {}⟩, .comment " c"]]⟩ := by
  have hidentifier : ∀ name ∈ ["ls", "list", "f", "a", "b"], IsIdentifier name := by
    unfold IsIdentifier
    decide
  have hplain : ∀ text ∈ ["", " c", "x\n\x7d"], IsPlain text := by
    unfold IsPlain
    decide
  exact parse_written { settings := { lenient := true, maxDepth := 1 } } (Nat.le_refl 1) none
    ⟨[.importing ⟨"ls", some "list", {}⟩, .comment "",
      .function ⟨"f", [⟨"a", .stringArray⟩, ⟨"b", .string⟩], some .string, {}⟩
        [.invocation ⟨"list", ["x\n\x7d", ""], {}⟩, .comment " c"]]⟩
    (by
      simp only [List.forall_mem_cons] at hidentifier hplain ⊢
      obtain ⟨hls, hlist, hf, ha, hb, -⟩ := hidentifier
      obtain ⟨hempty, hc, hbrace, -⟩ := hplain
      exact ⟨.importing hls (by simpa using hlist), .comment hempty,
        .function hf (by simp [ha, hb])
          (by simpa using ⟨.invocation hlist (by simp [hempty, hbrace]), .comment hc⟩), by simp⟩)
    (by simp [Node.nodes, Node.nodesAmong])

end Compiler

end CheckedScript
