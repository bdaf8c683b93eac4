import CheckedScript.Proofs.Guards
import CheckedScript.Proofs.Result
import CheckedScript.Proofs.Tree

/-!
The code of a script, line by line. `Node.lines` says which lines a node has, and that the
commands among them are the commands of the node. The code of a program is a section for each
helper function and a last one for `main`, and a script is the checks followed by the code.

Main results:
* `Node.commands_lines`: the commands of a node are those of its lines.
* `Script.outline_eq`: reading the top level finds the sections and the body of `main`.
* `Script.generateBy_eq`: a script is the shebang line, the checks and the code.
-/

namespace CheckedScript

namespace Script

/-! ## Lines -/

/-- What a line of code is there for. -/
inductive Line
  /-- The line above the code of `main`. -/
  | heading
  | opening (function : String)
  | binding (param : Param) (index : Nat)
  /-- The body of a function without parameters and commands. -/
  | idle
  | command (invoked : Command)
  | closing

def Line.text : Line → String
  | heading => "# main code"
  | opening function => function ++ "() \x7b"
  | binding param index => bindParam param index
  | idle => ":"
  | command invoked => renderCommand invoked
  | closing => "\x7d"

theorem renderCommand_eq (command : Command) :
    renderCommand command = command.name ++
      String.join (command.args.map fun arg => " \"" ++ arg ++ "\"") := by
  rw [renderCommand]
  generalize command.name = line
  induction command.args generalizing line with
  | nil => simp
  | cons arg args ih =>
    rw [List.foldl_cons, ih, List.map_cons, String.join_cons]
    simp only [String.append_assoc]

/-- A line at its level of indentation. -/
structure CodeLine where
  level : Nat
  line : Line

namespace CodeLine

def text (indent : String) (l : CodeLine) : String := indented indent l.level l.line.text

def command? : CodeLine → Option Command
  | ⟨_, .command command⟩ => some command
  | _ => none

theorem command?_of_line {l : CodeLine} {invoked : Command} (h : l.line = .command invoked) :
    l.command? = some invoked := by
  obtain ⟨level, line⟩ := l
  cases h
  rfl

/-- The function that a line opens. -/
def opened? : CodeLine → Option String
  | ⟨_, .opening function⟩ => some function
  | _ => none

end CodeLine

/-- The lines of a function around those of its body. -/
def enclose (level : Nat) (signature : Signature) (body : List CodeLine) : List CodeLine :=
  let inner := signature.params.zipIdx.map (fun (p, i) => ⟨level + 1, .binding p (i + 1)⟩)
    ++ body
  [⟨level, .opening signature.name⟩] ++ (if inner.isEmpty then [⟨level + 1, .idle⟩] else inner)
    ++ [⟨level, .closing⟩]

end Script

open Script

namespace Node

mutual

/-- The lines of a node, and of a root those of its children. -/
def lines (level : Nat) : Node → List CodeLine
  | root children => linesAmong level children
  | importing _ => []
  | function signature body => enclose level signature (linesAmong (level + 1) body)
  | param _ => []
  | invocation command => [⟨level, .command command⟩]
  | expression command => [⟨level, .command command⟩]
  | comment _ => []

def linesAmong (level : Nat) : List Node → List CodeLine
  | [] => []
  | node :: rest => node.lines level ++ linesAmong level rest

end

theorem linesAmong_eq (level : Nat) (nodes : List Node) :
    linesAmong level nodes = nodes.flatMap (lines level) := by
  induction nodes with
  | nil => rfl
  | cons node rest ih => rw [linesAmong, ih, List.flatMap_cons]

/-- What is found in the lines of a function apart from what it adds around its body. -/
theorem filterMap_enclose {α : Type} {f : CodeLine → Option α}
    (hbinding : ∀ level param index, f ⟨level, .binding param index⟩ = none)
    (hidle : ∀ level, f ⟨level, .idle⟩ = none) (hclosing : ∀ level, f ⟨level, .closing⟩ = none)
    (level : Nat) (signature : Signature) (body : List CodeLine) :
    (enclose level signature body).filterMap f =
      (f ⟨level, .opening signature.name⟩).toList ++ body.filterMap f := by
  have hparams : (signature.params.zipIdx.map fun (p, i) =>
      (⟨level + 1, .binding p (i + 1)⟩ : CodeLine)).filterMap f = [] := by
    rw [List.filterMap_map]
    exact List.filterMap_eq_nil_iff.mpr fun _ _ => hbinding ..
  rw [enclose]
  dsimp only
  rw [List.filterMap_append, List.filterMap_append, List.filterMap_cons_none (hclosing level),
    List.filterMap_nil, List.append_nil]
  have hopening : [(⟨level, .opening signature.name⟩ : CodeLine)].filterMap f =
      (f ⟨level, .opening signature.name⟩).toList := by
    cases hf : f ⟨level, .opening signature.name⟩ <;> simp [hf]
  rw [hopening]
  split
  case isTrue hempty =>
    obtain ⟨-, rfl⟩ := List.append_eq_nil_iff.mp (List.isEmpty_iff.mp hempty)
    rw [List.filterMap_cons_none (hidle _)]
  case isFalse => rw [List.filterMap_append, hparams, List.nil_append]

theorem commands_enclose (level : Nat) (signature : Signature) (body : List CodeLine) :
    (enclose level signature body).filterMap CodeLine.command? =
      body.filterMap CodeLine.command? :=
  filterMap_enclose (fun _ _ _ => rfl) (fun _ => rfl) (fun _ => rfl) level signature body

/-- The commands in the lines of a node are the commands of the node. -/
theorem commands_lines (level : Nat) (node : Node) :
    (node.lines level).filterMap CodeLine.command? = node.commands := by
  induction node generalizing level with
  | root children ih =>
    rw [lines, linesAmong_eq, List.filterMap_flatMap, commands_root]
    exact List.flatMap_congr fun node hmem => ih node hmem level
  | function signature body ih =>
    rw [lines, commands_enclose, linesAmong_eq, List.filterMap_flatMap, commands_function]
    exact List.flatMap_congr fun node hmem => ih node hmem (level + 1)
  | importing | param | invocation | expression | comment => rfl

end Node

namespace Script

variable {indent : String} {level : Nat}

theorem functionLines_eq (signature : Signature) (body : List CodeLine) :
    functionLines indent level signature (body.map (CodeLine.text indent)) =
      (enclose level signature body).map (CodeLine.text indent) := by
  rw [functionLines, enclose]
  dsimp only
  rw [List.map_append, List.map_append]
  have hinner : ∀ inner : List CodeLine,
      (if (inner.map (CodeLine.text indent)).isEmpty then [indented indent (level + 1) ":"]
        else inner.map (CodeLine.text indent)) =
      (if inner.isEmpty then [(⟨level + 1, .idle⟩ : CodeLine)] else inner).map
        (CodeLine.text indent) := by
    rintro (_ | _) <;> rfl
  rw [← hinner, List.map_append, List.map_map]
  rfl

theorem within_eq_ok_iff {α : Type} {node : Node} {r : Except CompileError α} {a : α} :
    within node r = .ok a ↔ r = .ok a := by
  cases r <;> simp [within, Except.mapError]

theorem emitAll_eq {nodes : List Node}
    (h : ∀ node ∈ nodes, ∀ lines, emit indent level node = .ok lines →
      lines = (node.lines level).map (CodeLine.text indent))
    {lines : List String} (hlines : emitAll indent level nodes = .ok lines) :
    lines = (Node.linesAmong level nodes).map (CodeLine.text indent) := by
  induction nodes generalizing lines with
  | nil => cases hlines; rfl
  | cons node rest ih =>
    rw [emitAll] at hlines
    split at hlines
    case h_1 => cases hlines
    case h_2 first hfirst =>
      obtain ⟨others, hothers, rfl⟩ := map_eq_ok_iff.mp hlines
      rw [h node (List.mem_cons_self ..) first (within_eq_ok_iff.mp hfirst),
        ih (fun node hmem => h node (List.mem_cons_of_mem _ hmem)) hothers, Node.linesAmong,
        List.map_append]

theorem emit_eq {node : Node} {lines : List String} (h : emit indent level node = .ok lines) :
    lines = (node.lines level).map (CodeLine.text indent) := by
  induction node generalizing level lines with
  | root | param => cases h
  | importing | comment | invocation | expression => cases h; rfl
  | function signature body ih =>
    rw [emit] at h
    obtain ⟨inner, hinner, rfl⟩ := map_eq_ok_iff.mp h
    rw [emitAll_eq (fun node hmem lines => @ih node hmem _ lines) hinner, functionLines_eq,
      Node.lines]

/-! ## Sections -/

/-- The text of a section. -/
def sectionText (indent : String) (lines : List CodeLine) : String :=
  joinLines (lines.map (CodeLine.text indent))

end Script

/-- The body of `main`, if the node is that function. -/
def Node.mainBody? : Node → Option (List Node)
  | function signature body => if signature.name = "main" then some body else none
  | _ => none

theorem Node.mainBody?_eq_none {node : Node}
    (h : ∀ signature body, node = function signature body → False) : node.mainBody? = none := by
  cases node with
  | function signature body => exact (h signature body rfl).elim
  | _ => rfl

namespace Program

/-- The body of the first function called `main`. -/
def mainBody? (program : Program) : Option (List Node) :=
  program.children.findSome? Node.mainBody?

/-- What is written for the nodes of the top level apart from `main`, empty sections left out. -/
def sectionsAmong (nodes : List Node) : List (List CodeLine) :=
  ((nodes.filter (·.mainBody?.isNone)).map (Node.lines 0)).filter (!·.isEmpty)

/-- The section of `main`, for the body that it may have. -/
def mainCode : Option (List Node) → List (List CodeLine)
  | none => []
  | some body => [⟨0, .heading⟩ :: Node.linesAmong 0 body]

/-- The sections of a program, that of `main` last. -/
def code (program : Program) : List (List CodeLine) :=
  sectionsAmong program.children ++ mainCode program.mainBody?

theorem sectionsAmong_cons_of_main {node : Node} (h : node.mainBody? ≠ none) (nodes : List Node) :
    sectionsAmong (node :: nodes) = sectionsAmong nodes := by
  rw [sectionsAmong, List.filter_cons_of_neg (by simpa using h)]
  rfl

theorem sectionsAmong_cons {node : Node} (h : node.mainBody? = none) (nodes : List Node) :
    sectionsAmong (node :: nodes) =
      (if (node.lines 0).isEmpty then [] else [node.lines 0]) ++ sectionsAmong nodes := by
  rw [sectionsAmong, List.filter_cons_of_pos (by simp [h]), List.map_cons, List.filter_cons]
  cases (node.lines 0).isEmpty <;> rfl

theorem mem_children_of_mainBody? {program : Program} {body : List Node}
    (h : program.mainBody? = some body) :
    ∃ signature, signature.name = "main" ∧ Node.function signature body ∈ program.children := by
  obtain ⟨node, hmem, hbody⟩ := List.exists_of_findSome?_eq_some h
  cases node with
  | function signature body' =>
    rw [Node.mainBody?] at hbody
    split at hbody
    case isTrue hname => cases hbody; exact ⟨signature, hname, hmem⟩
    case isFalse => cases hbody
  | _ => cases hbody

/-- A function called `main` is the one of that name, if there is no second. -/
theorem mainBody?_of_mem {program : Program}
    (hlength : (program.children.filterMap Node.mainBody?).length ≤ 1) {signature : Signature}
    {body : List Node} (hmem : Node.function signature body ∈ program.children)
    (hname : signature.name = "main") : program.mainBody? = some body := by
  have hbody : body ∈ program.children.filterMap Node.mainBody? :=
    List.mem_filterMap.mpr ⟨_, hmem, if_pos hname⟩
  rw [mainBody?, ← List.head?_filterMap]
  generalize program.children.filterMap Node.mainBody? = bodies at hlength hbody
  match bodies, hbody, hlength with
  | [other], hbody, _ => rw [List.mem_singleton.mp hbody]; rfl

/-- A command in the code of a program is a command of the program. -/
theorem mem_commands_of_code {program : Program} {lines : List CodeLine} {command : Command}
    (hlines : lines ∈ program.code) (hmem : command ∈ lines.filterMap CodeLine.command?) :
    command ∈ program.commands := by
  rw [commands_eq, List.mem_flatMap]
  rw [code, List.mem_append] at hlines
  obtain hsection | hmain := hlines
  · obtain ⟨hsection, -⟩ := List.mem_filter.mp hsection
    obtain ⟨node, hnode, rfl⟩ := List.mem_map.mp hsection
    rw [Node.commands_lines] at hmem
    exact ⟨node, (List.mem_filter.mp hnode).1, hmem⟩
  · cases hbody : program.mainBody? with
    | none => rw [hbody] at hmain; cases hmain
    | some body =>
      rw [hbody] at hmain
      obtain rfl := List.mem_singleton.mp hmain
      obtain ⟨signature, -, hfunction⟩ := mem_children_of_mainBody? hbody
      refine ⟨_, hfunction, ?_⟩
      rw [Node.commands_function, ← Node.commands_root, ← Node.commands_lines 0, Node.lines]
      exact hmem

end Program

namespace Script

variable {options : Options} {imports : List Import}

theorem emitOutermost_eq {node : Node} {lines : List String}
    (h : emitOutermost indent node = .ok lines) :
    lines = (node.lines 0).map (CodeLine.text indent) := emit_eq (within_eq_ok_iff.mp h)

/-- Reading the top level finds its sections and the body of `main`, unless that is known. -/
theorem outline_eq {helpers : List String} {main : Option (List Node)} {nodes : List Node}
    {top : Outline} (h : outline options imports helpers main nodes = .ok top) :
    top.sections = (Program.sectionsAmong nodes).map (sectionText options.indent) ∧
      top.main = main.or (nodes.findSome? Node.mainBody?) := by
  fun_induction outline options imports helpers main nodes generalizing top with
  | case1 => cases h; simp [Program.sectionsAmong]
  | case2 => cases h
  | case3 helpers main signature body nodes hname hmain ih =>
    -- The body is put aside for the end, and nothing is written in its place.
    have hbody : (Node.function signature body).mainBody? = some body := if_pos hname
    obtain ⟨hsections, htop⟩ := ih h
    refine ⟨?_, ?_⟩
    · rw [hsections, Program.sectionsAmong_cons_of_main (by simp [hbody])]
    · rw [htop, List.findSome?_cons, hbody, Option.not_isSome_iff_eq_none.mp hmain]
      rfl
  | case4 => cases h
  | case5 => cases h
  | case6 helpers main signature body nodes hname _ lines hlines ih =>
    have hbody : (Node.function signature body).mainBody? = none := if_neg hname
    have hne : ((Node.function signature body).lines 0).isEmpty = false := by
      simp [Node.lines, enclose]
    obtain ⟨rest, hrest, rfl⟩ := map_eq_ok_iff.mp h
    obtain ⟨hsections, htop⟩ := ih hrest
    refine ⟨?_, ?_⟩
    · rw [Program.sectionsAmong_cons hbody, hne, hsections, emitOutermost_eq hlines]
      rfl
    · rw [htop, List.findSome?_cons, hbody]
  | case7 => cases h
  | case8 helpers main node nodes hnode lines hlines ih =>
    have hbody : node.mainBody? = none := Node.mainBody?_eq_none hnode
    obtain ⟨rest, hrest, rfl⟩ := map_eq_ok_iff.mp h
    obtain ⟨hsections, htop⟩ := ih hrest
    rw [Program.sectionsAmong_cons hbody, List.findSome?_cons, hbody, emitOutermost_eq hlines,
      List.isEmpty_map]
    split
    · exact ⟨hsections, htop⟩
    · exact ⟨congrArg (_ :: ·) hsections, htop⟩

/-- A second `main` is an error. -/
theorem length_mains_le_one {helpers : List String} {main : Option (List Node)}
    {nodes : List Node} {top : Outline}
    (h : outline options imports helpers main nodes = .ok top) :
    (main.toList ++ nodes.filterMap Node.mainBody?).length ≤ 1 := by
  -- The body found so far is counted in, so that one in the rest is a second.
  fun_induction outline options imports helpers main nodes generalizing top with
  | case1 _ main => cases main <;> simp
  | case2 => cases h
  | case3 helpers main signature body nodes hname hmain ih =>
    have hbody : (Node.function signature body).mainBody? = some body := if_pos hname
    rw [Option.not_isSome_iff_eq_none.mp hmain, List.filterMap_cons_some hbody]
    exact ih h
  | case4 => cases h
  | case5 => cases h
  | case6 helpers main signature body nodes hname _ lines hlines ih =>
    have hbody : (Node.function signature body).mainBody? = none := if_neg hname
    obtain ⟨rest, hrest, -⟩ := map_eq_ok_iff.mp h
    rw [List.filterMap_cons_none hbody]
    exact ih hrest
  | case7 => cases h
  | case8 helpers main node nodes hnode lines hlines ih =>
    have hbody : node.mainBody? = none := Node.mainBody?_eq_none hnode
    obtain ⟨rest, hrest, -⟩ := map_eq_ok_iff.mp h
    rw [List.filterMap_cons_none hbody]
    exact ih hrest

/-- The section of `main`, if there is one. -/
def mainSections (indent : String) : Option (List Node) → Except CompileError (List String)
  | none => .ok []
  | some body => (mainSection indent body).map ([·])

/-- The finished script, if it passes the judgement that the options ask for. -/
def judged (valid : String → Bool) (options : Options) (script : String) :
    Except CompileError String :=
  if options.verify && !valid script then .error (.generation .invalidScript none)
  else .ok script

theorem eq_of_judged {valid : String → Bool} {text script : String}
    (h : judged valid options text = .ok script) : script = text := by
  rw [judged] at h
  split at h
  · cases h
  · exact (Except.ok.inj h).symm

theorem mainSections_eq {body? : Option (List Node)} {texts : List String}
    (h : mainSections indent body? = .ok texts) :
    texts = (Program.mainCode body?).map (sectionText indent) := by
  cases body? with
  | none => cases h; rfl
  | some body =>
    obtain ⟨text, htext, rfl⟩ := map_eq_ok_iff.mp h
    obtain ⟨lines, hlines, rfl⟩ := map_eq_ok_iff.mp htext
    rw [emitAll_eq (fun node _ lines => emit_eq) hlines]
    rfl

theorem result_generateBy (valid : String → Bool) (options : Options) (program : Program) :
    (generateBy valid options program).result =
      (guardSections options program.imports).bind fun guards =>
      (outline options program.imports [] none program.children).bind fun top =>
      (mainSections options.indent top.main).bind fun main =>
      judged valid options (assemble
        ((if options.shebang.isEmpty then [] else [options.shebang]) ++ guards ++ top.sections
          ++ main)) := by
  have hjudged : ∀ script : String,
      (if options.verify then
        if valid script then do
          Run.report .debug .generation "generated script parsed cleanly"
          return script
        else Run.fail (.generation .invalidScript none)
      else return script : Run String).result = judged valid options script := by
    intro script
    rw [judged]
    cases options.verify <;> cases valid script <;> rfl
  rw [generateBy, Run.result_bind, Run.result_ofExcept]
  congr
  funext guards
  rw [Run.result_bind, Run.result_ofExcept]
  congr
  funext top
  dsimp only
  -- Both ways go on to the same judgement.
  cases top.main with
  | none =>
    rw [Run.result_bind, Run.result_bind]
    exact hjudged _
  | some body =>
    rw [Run.result_bind, Run.result_ofExcept, mainSections]
    cases mainSection options.indent body with
    | error e => rfl
    | ok text => exact (Run.result_bind _ _).trans (hjudged _)

/-- A script is the shebang line, the checks and the code of the program. -/
theorem generateBy_eq {valid : String → Bool} {program : Program} {script : String}
    (h : (generateBy valid options program).result = .ok script) :
    ∃ checks, guardSections options program.imports = .ok checks ∧
      script = assemble ((if options.shebang.isEmpty then [] else [options.shebang]) ++ checks
        ++ program.code.map (sectionText options.indent)) := by
  rw [result_generateBy] at h
  obtain ⟨checks, hchecks, h⟩ := bind_eq_ok_iff.mp h
  obtain ⟨top, htop, h⟩ := bind_eq_ok_iff.mp h
  obtain ⟨main, hmain, h⟩ := bind_eq_ok_iff.mp h
  obtain ⟨hsections, hbody⟩ := outline_eq htop
  refine ⟨checks, hchecks, ?_⟩
  rw [eq_of_judged h, hsections, mainSections_eq hmain, hbody, Program.code, List.map_append,
    ← List.append_assoc]
  rfl

/-- A function called `main` is the one that the script runs. -/
theorem mainBody?_of_generateBy {valid : String → Bool} {program : Program} {script : String}
    (h : (generateBy valid options program).result = .ok script) {signature : Signature}
    {body : List Node} (hmem : Node.function signature body ∈ program.children)
    (hname : signature.name = "main") : program.mainBody? = some body := by
  rw [result_generateBy] at h
  obtain ⟨checks, -, h⟩ := bind_eq_ok_iff.mp h
  obtain ⟨top, htop, -⟩ := bind_eq_ok_iff.mp h
  exact Program.mainBody?_of_mem (length_mains_le_one htop) hmem hname

end Script

end CheckedScript
