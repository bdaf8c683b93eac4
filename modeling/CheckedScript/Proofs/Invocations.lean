import CheckedScript.Proofs.Checks
import CheckedScript.Proofs.WellFormed

/-!
The invocations of a program in its script. The section of `main` holds one command for each
invocation in its body, and reading the section back gives their names and arguments: names end
at a space or a line end, and no argument holds the quote that ends it.

Main results:
* `Script.readCommands_flatMap`: reading back commands that are written one to a line.
* `Compiler.main_section_determines_invocations`: the section of `main` read back.

The reader here knows lines of this form only, and does not expand anything.
-/

namespace CheckedScript

open Script

namespace Script

/-! ## Reading commands back -/

/-- The texts between the next pairs of quotes, each pair behind a space, and what follows. -/
def readArguments : List Char → List String × List Char
  | ' ' :: '"' :: cs =>
    let found := readArguments (cs.dropWhile (· ≠ '"')).tail
    (String.ofList (cs.takeWhile (· ≠ '"')) :: found.1, found.2)
  | cs => ([], cs)
termination_by cs => cs.length
decreasing_by
  have hdrop := (List.dropWhile_sublist (· ≠ '"') (l := cs)).length_le
  simp only [List.length_tail, List.length_cons]
  omega

theorem length_readArguments_le (cs : List Char) :
    (readArguments cs).2.length ≤ cs.length := by
  fun_induction readArguments cs with
  | case1 cs found ih =>
    have hdrop := (List.dropWhile_sublist (· ≠ '"') (l := cs)).length_le
    refine Nat.le_trans ih ?_
    simp only [List.length_tail, List.length_cons]
    omega
  | case2 => simp

/-- Whether a command name ends in front of this character. -/
def endsName (c : Char) : Bool := c = ' ' || c = '\n'

/-- The commands of a text in which each stands behind a line end: a name up to the first space
or line end, then its arguments. -/
def readCommands : List Char → List (String × List String)
  | '\n' :: c :: cs =>
    let found := readArguments ((c :: cs).dropWhile fun c => !endsName c)
    (String.ofList ((c :: cs).takeWhile fun c => !endsName c), found.1) :: readCommands found.2
  | _ => []
termination_by cs => cs.length
decreasing_by
  have hdrop := (List.dropWhile_sublist (fun c => !endsName c) (l := c :: cs)).length_le
  have hread := length_readArguments_le ((c :: cs).dropWhile fun c => !endsName c)
  simp only [List.length_cons] at hdrop ⊢
  omega

/-- The characters of arguments as they are written. -/
def argumentText (args : List String) : List Char :=
  args.flatMap fun arg => ' ' :: '"' :: (arg.toList ++ ['"'])

theorem toList_renderCommand (command : Command) :
    (renderCommand command).toList = command.name.toList ++ argumentText command.args := by
  rw [renderCommand_eq, String.toList_append, String.toList_join, List.flatMap_map]
  simp [argumentText, String.toList_append]

theorem readArguments_append {args : List String} (hargs : ∀ arg ∈ args, IsPlain arg)
    {rest : List Char} (hrest : rest.head? ≠ some ' ') :
    readArguments (argumentText args ++ rest) = (args, rest) := by
  induction args with
  | nil =>
    rw [argumentText, List.flatMap_nil, List.nil_append, readArguments]
    rintro cs rfl
    exact hrest rfl
  | cons arg args ih =>
    obtain ⟨harg, hargs⟩ := List.forall_mem_cons.mp hargs
    have hplain : ∀ c ∈ arg.toList, decide (c ≠ '"') = true := by
      intro c hc
      exact decide_eq_true fun h => harg (h ▸ hc)
    have htext : argumentText (arg :: args) ++ rest =
        ' ' :: '"' :: (arg.toList ++ '"' :: (argumentText args ++ rest)) := by
      simp [argumentText]
    rw [htext, readArguments, List.takeWhile_append_of_pos hplain,
      List.dropWhile_append_of_pos hplain, List.takeWhile_cons_of_neg (by simp),
      List.dropWhile_cons_of_neg (by simp), List.tail_cons, ih hargs, List.append_nil,
      String.ofList_toList]

theorem endsName_of_isName {name : List Char} (h : isName name = true) :
    ∀ c ∈ name, endsName c = false := by
  intro c hc
  have hchar := alphanum_of_isName h c hc
  rw [endsName, Bool.or_eq_false_iff]
  refine ⟨decide_eq_false ?_, decide_eq_false ?_⟩ <;> rintro rfl <;> exact absurd hchar (by decide)

theorem readCommands_cons {name : String} {args : List String} {rest : List Char}
    (hname : isName name.toList = true) (hargs : ∀ arg ∈ args, IsPlain arg)
    (hrest : rest.head? = some '\n') :
    readCommands ('\n' :: (name.toList ++ (argumentText args ++ rest))) =
      (name, args) :: readCommands rest := by
  have hinside : ∀ c ∈ name.toList, (!endsName c) = true := by
    intro c hc
    rw [endsName_of_isName hname c hc]
    rfl
  -- Behind the name stands the space of an argument or the end of the line.
  obtain ⟨d, more, hmore, hend⟩ : ∃ d more, argumentText args ++ rest = d :: more ∧
      endsName d = true := by
    cases args with
    | nil =>
      obtain ⟨more, rfl⟩ := List.head?_eq_some_iff.mp hrest
      exact ⟨_, more, rfl, rfl⟩
    | cons arg args => exact ⟨' ', _, rfl, rfl⟩
  obtain ⟨c, cs, hcs⟩ : ∃ c cs, name.toList = c :: cs := by
    cases h : name.toList with
    | nil => rw [h] at hname; cases hname
    | cons c cs => exact ⟨c, cs, rfl⟩
  have htake : (name.toList ++ (argumentText args ++ rest)).takeWhile (!endsName ·) =
      name.toList := by
    rw [List.takeWhile_append_of_pos hinside, hmore, List.takeWhile_cons_of_neg (by simp [hend]),
      List.append_nil]
  have hdrop : (name.toList ++ (argumentText args ++ rest)).dropWhile (!endsName ·) =
      argumentText args ++ rest := by
    rw [List.dropWhile_append_of_pos hinside, hmore, List.dropWhile_cons_of_neg (by simp [hend])]
  rw [hcs, List.cons_append] at htake hdrop
  rw [hcs, List.cons_append, readCommands, htake, hdrop,
    readArguments_append hargs (by simp [hrest]), ← hcs, String.ofList_toList]

/-- Commands are read back from their text. -/
theorem readCommands_flatMap {commands : List Command}
    (h : ∀ command ∈ commands,
      isName command.name.toList = true ∧ ∀ arg ∈ command.args, IsPlain arg) :
    readCommands (commands.flatMap (fun command => '\n' :: (renderCommand command).toList)
      ++ ['\n']) = commands.map fun command => (command.name, command.args) := by
  induction commands with
  | nil => rw [List.flatMap_nil, List.nil_append, readCommands]; rfl; nofun
  | cons command commands ih =>
    obtain ⟨⟨hname, hargs⟩, hrest⟩ := List.forall_mem_cons.mp h
    have hhead : (commands.flatMap (fun command => '\n' :: (renderCommand command).toList)
        ++ ['\n']).head? = some '\n' := by
      cases commands <;> rfl
    rw [List.flatMap_cons, toList_renderCommand, List.cons_append, List.cons_append,
      List.append_assoc, List.append_assoc, readCommands_cons hname hargs hhead, ih hrest,
      List.map_cons]

/-! ## The text of the section -/

theorem joinLines_cons (line : String) (lines : List String) :
    joinLines (line :: lines) = line ++ String.join (lines.map ("\n" ++ ·)) := by
  induction lines generalizing line with
  | nil => simp [joinLines]
  | cons next lines ih =>
    unfold joinLines at ih ⊢
    rw [String.intercalate_cons_cons, ih, List.map_cons, String.join_cons, String.append_assoc,
      String.append_assoc]

theorem assemble_concat (sections : List String) (text : String) :
    ∃ front, assemble (sections ++ [text]) = front ++ text ++ "\n" := by
  rw [assemble]
  by_cases h : sections = []
  · exact ⟨"", by simp [h]⟩
  · rw [String.intercalate_append_of_ne_nil h (List.cons_ne_nil _ _), String.intercalate_singleton]
    exact ⟨_, rfl⟩

/-- The text of commands that stand in no function, below a heading. -/
theorem sectionText_heading (indent : String) (commands : List Command) :
    sectionText indent (⟨0, .heading⟩ :: commands.map fun command => ⟨0, .command command⟩) =
      "# main code" ++ String.join (commands.map fun command => "\n" ++ renderCommand command) := by
  have hline : ∀ line : Line, CodeLine.text indent ⟨0, line⟩ = line.text := by
    intro line
    simp [CodeLine.text, indented]
  rw [sectionText, List.map_cons, joinLines_cons, hline, List.map_map, List.map_map]
  simp only [Function.comp_def, hline, Line.text]

end Script

namespace Node

theorem lines_mapCommands {node : Node} (h : node.InBody) (f : Command → Command) :
    (node.mapCommands f).lines 0 =
      node.command?.toList.map fun command => ⟨0, .command (f command)⟩ := by
  cases h <;> rfl

/-- The lines of a body are its commands, one each. -/
theorem linesAmong_mapCommands {body : List Node} (h : ∀ node ∈ body, node.InBody)
    (f : Command → Command) :
    linesAmong 0 (mapCommandsAmong f body) =
      ((body.filterMap command?).map f).map fun command => ⟨0, .command command⟩ := by
  induction body with
  | nil => rfl
  | cons node body ih =>
    obtain ⟨hnode, hbody⟩ := List.forall_mem_cons.mp h
    rw [mapCommandsAmong, linesAmong, ih hbody, lines_mapCommands hnode, List.filterMap_cons]
    cases node.command? <;> rfl

theorem imports_eq_nil {node : Node} (h : node.InBody) : node.imports = [] := by
  cases h <;> rfl

theorem args_of_inBody {node : Node} (h : node.InBody) {command : Command}
    (hcommand : node.command? = some command) : ∀ arg ∈ command.args, IsPlain arg := by
  cases h with
  | invocation _ hargs => cases hcommand; exact hargs
  | comment => cases hcommand

end Node

theorem Program.identifier_of_mem_imports {program : Program}
    (h : ∀ node ∈ program.children, node.AtTopLevel) {declaration : Import}
    (hmem : declaration ∈ program.imports) : IsIdentifier declaration.name := by
  rw [imports, Node.importsAmong_eq] at hmem
  obtain ⟨node, hnode, hmem⟩ := List.mem_flatMap.mp hmem
  cases h node hnode with
  | importing hname => rw [List.mem_singleton.mp hmem]; exact hname
  | comment => cases hmem
  | function _ _ hbody =>
    rw [Node.imports_function] at hmem
    obtain ⟨inner, hinner, hmem⟩ := List.mem_flatMap.mp hmem
    rw [Node.imports_eq_nil (hbody inner hinner)] at hmem
    cases hmem

namespace Compiler

/-- The script ends with the invocations of `main` in their order, under the names that they
resolve to, and these are read back from it. -/
theorem main_section_determines_invocations {valid : String → Bool} {config : Config}
    {file : Option String} {source script : String} {program : Program} {signature : Signature}
    {body : List Node} (hscript : (compileBy valid config file source).result = .ok script)
    (hprogram : (parse config file source).result = .ok program)
    (hmain : Node.function signature body ∈ program.children) (hname : signature.name = "main") :
    let invoked := (body.filterMap Node.command?).map (Command.renamed program.imports)
    let text := String.join (invoked.map fun command => "\n" ++ renderCommand command) ++ "\n"
    (∃ front, script = front ++ "# main code" ++ text) ∧
      readCommands text.toList = invoked.map fun command => (command.name, command.args) := by
  intro invoked text
  have hnodes := atTopLevel_of_parse hprogram
  obtain ⟨parsed, resolved, hparsed, hresolved, hgenerated⟩ := compileBy_eq_ok hscript
  obtain rfl : program = parsed := Except.ok.inj (hprogram.symm.trans hparsed)
  obtain hbody : ∀ node ∈ body, node.InBody := by
    cases hnodes _ hmain with
    | function _ _ hbody => exact hbody
  have hrenamed := (Program.eq_mapCommands_of_resolve hresolved).2
  refine ⟨?_, ?_⟩
  · -- The script runs the body that resolution made of this one.
    have hmain' : Node.function signature
        (Node.mapCommandsAmong (Command.renamed program.imports) body) ∈ resolved.children := by
      rw [hrenamed]
      exact List.mem_map.mpr ⟨_, hmain, rfl⟩
    have hcode : resolved.code = Program.sectionsAmong resolved.children ++
        [⟨0, .heading⟩ :: invoked.map fun command => ⟨0, .command command⟩] := by
      rw [Program.code, mainBody?_of_generateBy hgenerated hmain' hname, Program.mainCode,
        Node.linesAmong_mapCommands hbody]
    obtain ⟨checks, -, rfl⟩ := generateBy_eq hgenerated
    rw [hcode, List.map_append, List.map_singleton, sectionText_heading, ← List.append_assoc]
    obtain ⟨front, hfront⟩ := assemble_concat _ _
    exact ⟨front, by rw [hfront, String.append_assoc, String.append_assoc, String.append_assoc]⟩
  · have htext : text.toList =
        invoked.flatMap (fun command => '\n' :: (renderCommand command).toList) ++ ['\n'] := by
      simp [text, String.toList_append, List.flatMap_map]
    rw [htext]
    refine readCommands_flatMap fun command hcommand => ?_
    obtain ⟨original, horiginal, rfl⟩ := List.mem_map.mp hcommand
    obtain ⟨node, hnode, hcommand?⟩ := List.mem_filterMap.mp horiginal
    -- Arguments come from tokens as they are, but the name is that of an import.
    have hargs := Node.args_of_inBody (hbody node hnode) hcommand?
    have hmem : original.renamed program.imports ∈ resolved.commands := by
      rw [hrenamed, Program.commands_mapCommands, Program.commands_eq]
      refine List.mem_map_of_mem (List.mem_flatMap.mpr ⟨_, hmain, ?_⟩)
      rw [Node.commands_function]
      exact List.mem_flatMap.mpr ⟨node, hnode, Node.mem_commands_of_command? hcommand?⟩
    obtain ⟨declaration, hdeclaration, hname⟩ := Program.mem_imports_of_resolve hresolved hmem
    refine ⟨?_, hargs⟩
    rw [hname]
    exact (Program.identifier_of_mem_imports hnodes hdeclaration).1

/-- An alias, and an argument with a brace, a line end and a comment mark. -/
theorem main_section_of_aliased_invocation :
    ∃ script, (compileBy (fun _ => true) {} none
        "import a as b;main:():\x7b$b[\"\x7d\n#\"]\x7d").result = .ok script ∧
      (∃ front, script = front ++ "# main code" ++ "\na \"\x7d\n#\"\n") ∧
      readCommands "\na \"\x7d\n#\"\n".toList = [("a", ["\x7d\n#"])] := by
  have hprogram : (parse {} none "import a as b;main:():\x7b$b[\"\x7d\n#\"]\x7d").result =
      .ok ⟨[.importing ⟨"a", some "b", {}⟩, .function ⟨"main", [], none, { column := 15 }⟩
        [.invocation ⟨"b", ["\x7d\n#"], { column := 25 }⟩]]⟩ := by cbv
  obtain ⟨script, hscript⟩ : ∃ script, (compileBy (fun _ => true) {} none
      "import a as b;main:():\x7b$b[\"\x7d\n#\"]\x7d").result = .ok script := by
    rw [compileBy, Run.result_bind, hprogram]
    exact ⟨_, rfl⟩
  exact ⟨script, hscript, main_section_determines_invocations hscript hprogram
    (List.mem_cons_of_mem _ (List.mem_singleton_self _)) rfl⟩

end Compiler

end CheckedScript
