import CheckedScript.Proofs.Invocations

/-!
The parameters of helper functions. A helper function starts with one `local` line for each
parameter; `Shell.binding?` says what such a line binds in a call, read as the shell reads it, and
`Shell.bound?` what a variable holds behind all of them. An array gets the arguments from its
position on. A text gets the argument at its position only up to the ninth: `$10` is `$1` and a
literal `0`.

Main results:
* `Shell.binding?_bindParam`: what the line of a parameter binds.
* `Shell.bound?_eq_given_iff`: which parameters have their values behind all the lines.
* `Compiler.parameter_bound_iff`: the same of the lines in a script.

The shell here knows positional parameters in double quotes and slices of all of them; a line with
any other expansion binds nothing. A second line for a name replaces the value of the first.
-/

namespace CheckedScript

open Script

namespace Shell

/-! ## What a line binds -/

/-- The call of a function: what `$0` stands for, and the arguments. -/
structure Call where
  self : String
  args : List String

namespace Call

/-- The positional parameter with this number, empty if the call does not give it. -/
def parameter (call : Call) : Nat → String
  | 0 => call.self
  | n + 1 => call.args[n]?.getD ""

/-- The positional parameters from this number on. -/
def parametersFrom (call : Call) : Nat → List String
  | 0 => call.self :: call.args
  | n + 1 => call.args.drop n

end Call

inductive Value
  | text (content : String)
  | array (elements : List String)
deriving DecidableEq

/-- Where the expansion of a text stands: in plain text, behind a dollar sign, or in braces behind
one with the digits read so far. -/
inductive Mode
  | plain
  | dollar
  | braces (digits : List Char)

/-- Whether a character between double quotes stands for itself. -/
def isLiteral (c : Char) : Bool := c ∉ ['$', '"', '\\', '\x60']

/-- What a text between double quotes expands to. A dollar sign and one digit stand for a
parameter, as do a dollar sign and digits in braces. There is no result for texts with other
expansions. -/
def expand (call : Call) : Mode → List Char → Option (List Char)
  | .plain, [] => some []
  | .plain, c :: cs =>
    if c = '$' then expand call .dollar cs
    else if isLiteral c then (expand call .plain cs).map (c :: ·)
    else none
  | .dollar, [] => none
  | .dollar, c :: cs =>
    if c.isDigit then
      (expand call .plain cs).map ((call.parameter (Nat.ofDigitChars 10 [c] 0)).toList ++ ·)
    else if c = '\x7b' then expand call (.braces []) cs
    else none
  | .braces _, [] => none
  | .braces digits, c :: cs =>
    if c.isDigit then expand call (.braces (digits ++ [c])) cs
    else if c = '\x7d' ∧ digits ≠ [] then
      (expand call .plain cs).map ((call.parameter (Nat.ofDigitChars 10 digits 0)).toList ++ ·)
    else none

/-- The value of the right side of an assignment: a text between double quotes, or an array of the
parameters from a number on. -/
def value? (call : Call) : List Char → Option Value
  | '"' :: cs =>
    if cs.getLast? = some '"' then
      (expand call .plain cs.dropLast).map fun content => .text (String.ofList content)
    else none
  | '(' :: '"' :: '$' :: '\x7b' :: '@' :: ':' :: cs =>
    let digits := cs.takeWhile Char.isDigit
    if digits ≠ [] ∧ cs.dropWhile Char.isDigit = ['\x7d', '"', ')'] then
      some (.array (call.parametersFrom (Nat.ofDigitChars 10 digits 0)))
    else none
  | _ => none

/-- The variable that a `local` line binds, and its value. -/
def binding? (call : Call) : List Char → Option (String × Value)
  | 'l' :: 'o' :: 'c' :: 'a' :: 'l' :: ' ' :: cs =>
    let name := cs.takeWhile (· ≠ '=')
    if isName name then
      (value? call (cs.dropWhile (· ≠ '=')).tail).map fun value => (String.ofList name, value)
    else none
  | _ => none

/-- The variables behind the lines, the one bound last in front. A line that is no binding leaves
none. -/
def bindInOrder (call : Call) (bound : List (String × Value)) :
    List (List Char) → Option (List (String × Value))
  | [] => some bound
  | line :: lines =>
    (binding? call line).bind fun binding => bindInOrder call (binding :: bound) lines

/-- The value of a variable behind the lines. -/
def bound? (call : Call) (lines : List (List Char)) (name : String) : Option Value :=
  (bindInOrder call [] lines).bind (List.lookup name)

/-- What a parameter is meant to be bound to at a position counted from 0. -/
def Value.given (args : List String) (k : Nat) : ValueType → Value
  | .string => .text (args[k]?.getD "")
  | .stringArray => .array (args.drop k)

/-! ## Expansion of numbers -/

theorem isLiteral_of_isDigit {c : Char} (h : c.isDigit = true) : isLiteral c = true := by
  rw [isLiteral, decide_eq_true_eq]
  intro hmem
  fin_cases hmem <;> revert h <;> decide

theorem expand_literal (call : Call) {cs : List Char} (h : ∀ c ∈ cs, isLiteral c = true) :
    expand call .plain cs = some cs := by
  induction cs with
  | nil => rfl
  | cons c cs ih =>
    obtain ⟨hc, hcs⟩ := List.forall_mem_cons.mp h
    have hdollar : c ≠ '$' := by
      rintro rfl
      revert hc
      decide
    rw [expand, if_neg hdollar, if_pos hc, ih hcs]
    rfl

/-- Only the first digit behind a dollar sign belongs to the parameter. -/
theorem expand_dollar (call : Call) {c : Char} {cs : List Char}
    (h : ∀ d ∈ c :: cs, d.isDigit = true) :
    expand call .plain ('$' :: c :: cs) =
      some ((call.parameter (Nat.ofDigitChars 10 [c] 0)).toList ++ cs) := by
  obtain ⟨hc, hcs⟩ := List.forall_mem_cons.mp h
  rw [expand, if_pos rfl, expand, if_pos hc,
    expand_literal call fun d hd => isLiteral_of_isDigit (hcs d hd)]
  rfl

theorem isDigit_of_mem_toDigits {n : Nat} {c : Char} (h : c ∈ Nat.toDigits 10 n) :
    c.isDigit = true := Nat.isDigit_of_mem_toDigits (by decide) (by decide) h

theorem toDigits_ne_nil (n : Nat) : Nat.toDigits 10 n ≠ [] :=
  List.ne_nil_of_length_pos Nat.length_toDigits_pos

/-- The digits of a number are one digit exactly for the numbers up to nine. -/
theorem length_toDigits_le_one_iff (n : Nat) : (Nat.toDigits 10 n).length ≤ 1 ↔ n < 10 :=
  Nat.length_toDigits_le_iff (by decide) (by decide)

/-! ## Binding lines -/

theorem ne_equals_of_isName {name : List Char} (h : isName name = true) :
    ∀ c ∈ name, decide (c ≠ '=') = true := by
  intro c hc
  rw [decide_eq_true_eq]
  rintro rfl
  exact absurd (alphanum_of_isName h _ hc) (by decide)

/-- A line for a name binds that name to the value of the word. -/
theorem binding?_local (call : Call) {name : String} (hname : isName name.toList = true)
    (word : List Char) :
    binding? call ("local ".toList ++ (name.toList ++ '=' :: word)) =
      (value? call word).map fun value => (name, value) := by
  rw [String.toList_ofList]
  simp only [List.cons_append, List.nil_append]
  rw [binding?, List.takeWhile_append_of_pos (ne_equals_of_isName hname),
    List.dropWhile_append_of_pos (ne_equals_of_isName hname), List.takeWhile_cons_of_neg (by simp),
    List.dropWhile_cons_of_neg (by simp), List.append_nil, if_pos hname, List.tail_cons,
    String.ofList_toList]

/-- What the line of a parameter with this number binds: a text gets the parameter that the first
digit names and the other digits as they are. -/
def lineValue (call : Call) (n : Nat) : ValueType → Value
  | .string => .text (call.parameter (Nat.ofDigitChars 10 ((Nat.toDigits 10 n).take 1) 0) ++
      String.ofList ((Nat.toDigits 10 n).drop 1))
  | .stringArray => .array (call.parametersFrom n)

theorem value?_text (call : Call) (n : Nat) :
    value? call ('"' :: ('$' :: Nat.toDigits 10 n ++ ['"'])) =
      some (lineValue call n .string) := by
  obtain ⟨c, cs, hdigits⟩ := List.exists_cons_of_ne_nil (toDigits_ne_nil n)
  rw [lineValue, value?, if_pos List.getLast?_concat, List.dropLast_concat, hdigits,
    expand_dollar call fun d hd => isDigit_of_mem_toDigits (hdigits ▸ hd)]
  simp

/-- An array gets the parameters from the number on, however many digits it has. -/
theorem value?_array (call : Call) (n : Nat) :
    value? call ('(' :: '"' :: '$' :: '\x7b' :: '@' :: ':' ::
      (Nat.toDigits 10 n ++ ['\x7d', '"', ')'])) = some (lineValue call n .stringArray) := by
  have hall : ∀ c ∈ Nat.toDigits 10 n, c.isDigit = true := fun _ => isDigit_of_mem_toDigits
  rw [lineValue, value?, List.takeWhile_append_of_pos hall, List.dropWhile_append_of_pos hall,
    List.takeWhile_cons_of_neg (by decide), List.dropWhile_cons_of_neg (by decide),
    List.append_nil, if_pos ⟨toDigits_ne_nil n, rfl⟩, Nat.ofDigitChars_ten_toDigits]

theorem binding?_bindParam (call : Call) {param : Param}
    (hname : isName param.name.toList = true) (n : Nat) :
    binding? call (bindParam param n).toList =
      some (param.name, lineValue call n param.type) := by
  obtain ⟨name, type⟩ := param
  cases type with
  | string =>
    have hline : (bindParam ⟨name, .string⟩ n).toList =
        "local ".toList ++ (name.toList ++ '=' :: '"' :: ('$' :: Nat.toDigits 10 n ++ ['"'])) := by
      simp [bindParam]
    rw [hline, binding?_local call hname, value?_text]
    rfl
  | stringArray =>
    have hline : (bindParam ⟨name, .stringArray⟩ n).toList = "local ".toList ++ (name.toList ++
        '=' :: '(' :: '"' :: '$' :: '\x7b' :: '@' :: ':' ::
          (Nat.toDigits 10 n ++ ['\x7d', '"', ')'])) := by
      simp [bindParam]
    rw [hline, binding?_local call hname, value?_array]
    rfl

/-! ## Values of lines -/

theorem lineValue_of_lt (call : Call) {k : Nat} (h : k < 9) :
    lineValue call (k + 1) .string = .text (call.parameter (k + 1)) := by
  have hlength : (Nat.toDigits 10 (k + 1)).length ≤ 1 :=
    (length_toDigits_le_one_iff _).mpr (by omega)
  rw [lineValue, List.take_of_length_le hlength, List.drop_of_length_le hlength,
    Nat.ofDigitChars_ten_toDigits, String.ofList_nil, String.append_empty]

/-- From the tenth on, digits are left over whatever the arguments are. -/
theorem lineValue_ne_of_ge (call : Call) {k : Nat} (h : 9 ≤ k) :
    lineValue call (k + 1) .string ≠ .text "" := by
  have hlength : ¬ (Nat.toDigits 10 (k + 1)).length ≤ 1 := fun hle =>
    absurd ((length_toDigits_le_one_iff _).mp hle) (by omega)
  have hrest : (Nat.toDigits 10 (k + 1)).drop 1 ≠ [] := fun hnil =>
    hlength (List.drop_eq_nil_iff.mp hnil)
  rw [lineValue, ne_eq, Value.text.injEq, String.append_eq_empty_iff]
  rintro ⟨-, hempty⟩
  exact hrest (by simpa using hempty)

/-- The line of a parameter gives it the value that it is meant to have, in every call with enough
arguments, exactly if it is an array or one of the first nine. -/
theorem lineValue_eq_given_iff (type : ValueType) (k length : Nat) :
    (∀ self args, length ≤ args.length →
        lineValue ⟨self, args⟩ (k + 1) type = .given args k type) ↔
      type = .stringArray ∨ k < 9 := by
  cases type with
  | stringArray => exact iff_of_true (fun self args _ => rfl) (.inl rfl)
  | string =>
    simp only [reduceCtorEq, false_or]
    constructor
    · intro h
      by_contra hk
      -- With empty arguments nothing but the digits is left.
      refine lineValue_ne_of_ge ⟨"", List.replicate length ""⟩ (Nat.le_of_not_lt hk) ?_
      rw [h "" _ (by simp), Value.given, List.getElem?_replicate]
      split <;> rfl
    · intro hk self args _
      rw [lineValue_of_lt _ hk]
      rfl

/-- The line of a later parameter gives another value in some call. -/
theorem exists_lineValue_ne_given {k j length : Nat} (hkj : k < j) (hj : j < length)
    (type later : ValueType) :
    ∃ args : List String, length ≤ args.length ∧
      lineValue ⟨"", args⟩ (j + 1) later ≠ .given args k type := by
  -- Only the argument at the later position is not empty.
  refine ⟨(List.replicate length "").set j "x", by simp, ?_⟩
  cases type with
  | string =>
    have hgiven : Value.given ((List.replicate length "").set j "x") k .string = .text "" := by
      rw [Value.given, List.getElem?_set_ne (by omega), List.getElem?_replicate]
      split <;> rfl
    rw [hgiven]
    cases later with
    | string =>
      obtain hlt | hge := Nat.lt_or_ge j 9
      · rw [lineValue_of_lt _ hlt]
        simp [Call.parameter, hj]
      · exact lineValue_ne_of_ge _ hge
    | stringArray => simp [lineValue]
  | stringArray =>
    cases later with
    | string => simp [lineValue, Value.given]
    | stringArray =>
      intro heq
      have hlength := congrArg List.length (Value.array.inj heq)
      simp [Call.parametersFrom] at hlength
      omega

/-! ## Lines together -/

/-- The lines of parameters bind them one after the other. -/
theorem bindInOrder_bindParam (call : Call) {params : List Param}
    (hnames : ∀ param ∈ params, isName param.name.toList = true) (bound : List (String × Value))
    (n : Nat) :
    bindInOrder call bound
        ((params.zipIdx n).map fun (param, i) => (bindParam param (i + 1)).toList) =
      some (((params.zipIdx n).map fun (param, i) =>
        (param.name, lineValue call (i + 1) param.type)).reverse ++ bound) := by
  induction params generalizing bound n with
  | nil => rfl
  | cons param params ih =>
    obtain ⟨hname, hnames⟩ := List.forall_mem_cons.mp hnames
    rw [List.zipIdx_cons, List.map_cons, bindInOrder, binding?_bindParam call hname,
      Option.bind_some, ih hnames]
    simp

/-- Behind the lines of parameters a variable has the value of the last line for it. -/
theorem bound?_bindParam (call : Call) {params : List Param}
    (hnames : ∀ param ∈ params, isName param.name.toList = true) {k : Nat} {param : Param}
    (hparam : params[k]? = some param)
    (hlast : ∀ j later, k < j → params[j]? = some later → later.name ≠ param.name) :
    bound? call (params.zipIdx.map fun (param, i) => (bindParam param (i + 1)).toList)
      param.name = some (lineValue call (k + 1) param.type) := by
  obtain ⟨hk, rfl⟩ := List.getElem?_eq_some_iff.mp hparam
  have hsplit : params.zipIdx =
      (params.take k).zipIdx ++ (params[k], k) :: (params.drop (k + 1)).zipIdx (k + 1) := by
    nth_rewrite 1 [← List.take_append_drop k params]
    rw [List.zipIdx_append, List.drop_eq_getElem_cons hk, List.zipIdx_cons,
      List.length_take_of_le hk.le, Nat.zero_add]
  have hbehind : List.lookup params[k].name (((params.drop (k + 1)).zipIdx (k + 1)).map
      fun (param, i) => (param.name, lineValue call (i + 1) param.type)).reverse = none := by
    rw [List.lookup_eq_none_iff]
    intro binding hbinding
    obtain ⟨⟨later, j⟩, hlater, rfl⟩ := List.mem_map.mp (List.mem_reverse.mp hbinding)
    obtain ⟨hj, hget⟩ := List.mk_mem_zipIdx_iff_le_and_getElem?_sub.mp hlater
    rw [List.getElem?_drop, Nat.add_sub_cancel' hj] at hget
    exact bne_iff_ne.mpr (hlast j later hj hget).symm
  rw [bound?, bindInOrder_bindParam call hnames, hsplit]
  simp [List.lookup_append, hbehind]

/-- Among the parameters of one name there is a last. -/
theorem exists_last (params : List Param) {k : Nat} {param : Param}
    (hparam : params[k]? = some param) :
    ∃ j last, k ≤ j ∧ params[j]? = some last ∧ last.name = param.name ∧
      ∀ i later, j < i → params[i]? = some later → later.name ≠ last.name := by
  by_cases h : ∃ j later, k < j ∧ params[j]? = some later ∧ later.name = param.name
  · obtain ⟨j, later, hkj, hlater, hname⟩ := h
    obtain ⟨i, last, hji, hlast, heq, hfree⟩ := exists_last params hlater
    exact ⟨i, last, by omega, hlast, heq.trans hname, hfree⟩
  · exact ⟨k, param, Nat.le_refl k, hparam, rfl,
      fun i later hki hlater hname => h ⟨i, later, hki, hlater, hname⟩⟩
termination_by params.length - k
decreasing_by
  have hj := (List.getElem?_eq_some_iff.mp hlater).1
  omega

/-- All lines together give a parameter the value that it is meant to have, in every call with
enough arguments, exactly if its own line does and no later parameter has its name. -/
theorem bound?_eq_given_iff {params : List Param}
    (hnames : ∀ param ∈ params, isName param.name.toList = true) {k : Nat} {param : Param}
    (hparam : params[k]? = some param) :
    (∀ self args, params.length ≤ args.length →
        bound? ⟨self, args⟩ (params.zipIdx.map fun (param, i) => (bindParam param (i + 1)).toList)
          param.name = some (.given args k param.type)) ↔
      (param.type = .stringArray ∨ k < 9) ∧
        ∀ j later, k < j → params[j]? = some later → later.name ≠ param.name := by
  obtain ⟨j, last, hkj, hlast, hname, hfree⟩ := exists_last params hparam
  simp only [← hname, bound?_bindParam _ hnames hlast hfree, Option.some.injEq]
  obtain hlt | rfl := Nat.lt_or_eq_of_le hkj
  · refine iff_of_false (fun h => ?_) fun h => h.2 j last hlt hlast rfl
    obtain ⟨args, hargs, hne⟩ := exists_lineValue_ne_given hlt
      (List.getElem?_eq_some_iff.mp hlast).1 param.type last.type
    exact hne (h "" args hargs)
  · obtain rfl : param = last := Option.some.inj (hparam.symm.trans hlast)
    rw [lineValue_eq_given_iff]
    exact ⟨fun h => ⟨h, hfree⟩, And.left⟩

end Shell

/-! ## The section of a function -/

namespace Script

theorem assemble_of_mem {sections : List String} {text : String} (h : text ∈ sections) :
    ∃ front back, assemble sections = front ++ text ++ back := by
  obtain ⟨before, after, rfl⟩ := List.append_of_mem h
  rw [assemble]
  induction before with
  | nil =>
    cases after with
    | nil => exact ⟨"", "\n", by simp⟩
    | cons next after =>
      rw [List.nil_append, String.intercalate_cons_cons]
      exact ⟨"", "\n\n" ++ String.intercalate "\n\n" (next :: after) ++ "\n",
        by simp [String.append_assoc]⟩
  | cons first before ih =>
    obtain ⟨front, back, hrest⟩ := ih (by simp)
    refine ⟨first ++ "\n\n" ++ front, back, ?_⟩
    rw [List.cons_append, String.intercalate_cons_of_ne_nil (by simp), String.append_assoc,
      String.append_assoc, hrest]
    simp [String.append_assoc]

/-- The lines that bind the parameters of a function. -/
def bindings (signature : Signature) : List String :=
  signature.params.zipIdx.map fun (param, i) => bindParam param (i + 1)

/-- The lines of a function start with those that bind its parameters. -/
theorem text_enclose (indent : String) (signature : Signature) (body : List CodeLine) :
    ∃ rest, (enclose 0 signature body).map (CodeLine.text indent) =
      (signature.name ++ "() \x7b") :: ((bindings signature).map (indented indent 1) ++ rest) := by
  have hbindings : (signature.params.zipIdx.map fun (param, i) =>
      (⟨1, .binding param (i + 1)⟩ : CodeLine)).map (CodeLine.text indent) =
      (bindings signature).map (indented indent 1) := by
    rw [bindings, List.map_map, List.map_map]
    rfl
  have hopening : CodeLine.text indent ⟨0, .opening signature.name⟩ =
      signature.name ++ "() \x7b" := by
    simp [CodeLine.text, indented, Line.text]
  rw [enclose]
  dsimp only
  split
  case isTrue hempty =>
    obtain ⟨hparams, -⟩ := List.append_eq_nil_iff.mp (List.isEmpty_iff.mp hempty)
    rw [← hbindings, hparams, List.map_append, List.map_append, List.map_singleton, hopening]
    exact ⟨_, rfl⟩
  case isFalse =>
    rw [List.map_append, List.map_append, List.map_append, hbindings, List.map_singleton, hopening,
      List.append_assoc, List.append_assoc]
    exact ⟨_, rfl⟩

end Script

theorem Program.mem_code_of_function {program : Program} {signature : Signature}
    {body : List Node} (h : Node.function signature body ∈ program.children)
    (hname : signature.name ≠ "main") :
    enclose 0 signature (Node.linesAmong 1 body) ∈ program.code := by
  have hhelper : Node.function signature body ∈ program.children.filter (·.mainBody?.isNone) :=
    List.mem_filter.mpr ⟨h, by simp [Node.mainBody?, hname]⟩
  refine List.mem_append_left _ (List.mem_filter.mpr ⟨List.mem_map.mpr ⟨_, hhelper, ?_⟩, ?_⟩)
  · rw [Node.lines]
  · simp [enclose]

namespace Compiler

/-- The section of a helper function starts with one line for each parameter in their order, and
the line binds the parameter to the argument at its position, or an array to the arguments from
there on, in every call with enough arguments, exactly if the parameter is an array or one of the
first nine. Behind all the lines it is still bound so exactly if no later one has its name. -/
theorem parameter_bound_iff {valid : String → Bool} {config : Config} {file : Option String}
    {source script : String} {program : Program} {signature : Signature} {body : List Node}
    (hscript : (compileBy valid config file source).result = .ok script)
    (hprogram : (parse config file source).result = .ok program)
    (hfunction : Node.function signature body ∈ program.children)
    (hname : signature.name ≠ "main") :
    ∃ (front back : String) (lines rest : List String),
      script = front ++ joinLines ((signature.name ++ "() \x7b") ::
        (lines.map (indented config.output.indent 1) ++ rest)) ++ back ∧
      lines.length = signature.params.length ∧
      ∀ (k : Nat) (param : Param), signature.params[k]? = some param →
        ∃ line, lines[k]? = some line ∧
          ((∀ self args, signature.params.length ≤ args.length →
              Shell.binding? ⟨self, args⟩ line.toList =
                some (param.name, .given args k param.type)) ↔
            param.type = .stringArray ∨ k < 9) ∧
          ((∀ self args, signature.params.length ≤ args.length →
              Shell.bound? ⟨self, args⟩ (lines.map String.toList) param.name =
                some (.given args k param.type)) ↔
            (param.type = .stringArray ∨ k < 9) ∧
              ∀ j later, k < j → signature.params[j]? = some later →
                later.name ≠ param.name) := by
  have hparams : ∀ param ∈ signature.params, IsIdentifier param.name := by
    cases atTopLevel_of_parse hprogram _ hfunction with
    | function _ hparams _ => exact hparams
  obtain ⟨parsed, resolved, hparsed, hresolved, hgenerated⟩ := compileBy_eq_ok hscript
  obtain rfl : program = parsed := Except.ok.inj (hprogram.symm.trans hparsed)
  have hsection : Node.function signature
      (Node.mapCommandsAmong (Command.renamed program.imports) body) ∈ resolved.children := by
    rw [(Program.eq_mapCommands_of_resolve hresolved).2]
    exact List.mem_map.mpr ⟨_, hfunction, rfl⟩
  obtain ⟨checks, -, rfl⟩ := generateBy_eq hgenerated
  obtain ⟨front, back, hscript⟩ := assemble_of_mem (List.mem_append_right _
    (List.mem_map_of_mem (Program.mem_code_of_function hsection hname)))
  obtain ⟨rest, hlines⟩ := text_enclose config.output.indent signature (Node.linesAmong 1
    (Node.mapCommandsAmong (Command.renamed program.imports) body))
  refine ⟨front, back, bindings signature, rest, ?_, by simp [bindings], ?_⟩
  · rw [← hlines]
    exact hscript
  · intro k param hparam
    have hname := (hparams param (List.mem_of_getElem? hparam)).1
    refine ⟨bindParam param (k + 1), by simp [bindings, hparam], ?_, ?_⟩
    · simp only [Shell.binding?_bindParam _ hname, Option.some.injEq, Prod.mk.injEq, true_and]
      exact Shell.lineValue_eq_given_iff param.type k _
    · rw [bindings, List.map_map]
      exact Shell.bound?_eq_given_iff (fun param hmem => (hparams param hmem).1) hparam

/-- A helper function with ten texts as parameters. -/
def tenTexts : String :=
  "f:(a:string,b:string,c:string,d:string,e:string,g:string,h:string,i:string,j:string,k:string)"
    ++ ":\x7b\x7d"

def tenSignature : Signature :=
  ⟨"f", ["a", "b", "c", "d", "e", "g", "h", "i", "j", "k"].map (⟨·, .string⟩), none, {}⟩

/-- Of ten texts the first nine are bound as they are meant to be, and the last is not. -/
theorem parameter_bound_iff_ten_texts :
    ∃ script, (compileBy (fun _ => true) {} none tenTexts).result = .ok script ∧
      (parse {} none tenTexts).result = .ok ⟨[.function tenSignature []]⟩ ∧
      ∃ (front back : String) (lines rest : List String),
        script = front ++ joinLines ((tenSignature.name ++ "() \x7b") ::
          (lines.map (indented ({} : Config).output.indent 1) ++ rest)) ++ back ∧
        lines.length = tenSignature.params.length ∧
        ∀ (k : Nat) (param : Param), tenSignature.params[k]? = some param →
          ∃ line, lines[k]? = some line ∧
            ((∀ self args, tenSignature.params.length ≤ args.length →
                Shell.binding? ⟨self, args⟩ line.toList =
                  some (param.name, .given args k param.type)) ↔
              param.type = .stringArray ∨ k < 9) ∧
            ((∀ self args, tenSignature.params.length ≤ args.length →
                Shell.bound? ⟨self, args⟩ (lines.map String.toList) param.name =
                  some (.given args k param.type)) ↔
              (param.type = .stringArray ∨ k < 9) ∧
                ∀ j later, k < j → tenSignature.params[j]? = some later →
                  later.name ≠ param.name) := by
  have hprogram : (parse {} none tenTexts).result = .ok ⟨[.function tenSignature []]⟩ := by
    cbv
  obtain ⟨script, hscript⟩ : ∃ script,
      (compileBy (fun _ => true) {} none tenTexts).result = .ok script := by
    rw [compileBy, Run.result_bind, hprogram]
    exact ⟨_, rfl⟩
  exact ⟨script, hscript, hprogram,
    parameter_bound_iff hscript hprogram (List.mem_singleton_self _) (by decide)⟩

/-- The tenth of ten texts is bound to the first argument and a `0`. -/
theorem tenth_text_bound_to_first :
    (compile {} none tenTexts).result.toOption = some (
      "f() \x7b\n\tlocal a=\"$1\"\n\tlocal b=\"$2\"\n"
      ++ "\tlocal c=\"$3\"\n\tlocal d=\"$4\"\n\tlocal e=\"$5\"\n\tlocal g=\"$6\"\n"
      ++ "\tlocal h=\"$7\"\n\tlocal i=\"$8\"\n\tlocal j=\"$9\"\n\tlocal k=\"$10\"\n\x7d\n") ∧
    Shell.binding? ⟨"x", ["A", "B", "C", "D", "E", "F", "G", "H", "I", "J"]⟩
      "local k=\"$10\"".toList = some ("k", .text "A0") ∧
    Shell.Value.given ["A", "B", "C", "D", "E", "F", "G", "H", "I", "J"] 9 .string =
      .text "J" := by
  decide +kernel

end Compiler

end CheckedScript
