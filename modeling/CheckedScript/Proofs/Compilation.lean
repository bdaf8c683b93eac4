import CheckedScript.Proofs.HelperNames
import CheckedScript.Proofs.Layout

/-!
Which sources have a script, and which script, said of the program alone. A program has a script
if its commands are imported, there are statuses for its checks and its function names are free;
the text is that of its code with the commands renamed.

Main results:
* `Program.result_toScript_eq_ok_iff`: resolution and generation together.
* `Program.kind_of_toScript`: which of the two fails.
* `Compiler.compileBy_eq_ok_iff`: the script of a source.

A judgement on the finished script is a parameter; nothing is said of what it accepts.
-/

namespace CheckedScript

open Script

namespace Program

theorem functionNames_mapCommands (f : Command → Command) (program : Program) :
    (program.mapCommands f).functionNames = program.functionNames := by
  rw [functionNames, functionNames, mapCommands, List.filterMap_map]
  congr 1
  funext node
  cases node <;> rfl

end Program

/-- Whether names are free is a matter of functions and imports. -/
theorem Script.namesFree_congr {options : Options} {program other : Program}
    (hnames : other.functionNames = program.functionNames)
    (himports : other.imports = program.imports) :
    NamesFree options other ↔ NamesFree options program := by
  have hhelpers : other.helperNames = program.helperNames := by
    rw [Program.helperNames, Program.helperNames, hnames]
  constructor
  · rintro ⟨hmain, hdistinct, himplicit, hfree⟩
    rw [hnames] at hmain
    rw [hhelpers] at hdistinct himplicit hfree
    rw [himports] at hfree
    exact ⟨hmain, hdistinct, himplicit, hfree⟩
  · rintro ⟨hmain, hdistinct, himplicit, hfree⟩
    rw [← hnames] at hmain
    rw [← hhelpers] at hdistinct himplicit hfree
    rw [← himports] at hfree
    exact ⟨hmain, hdistinct, himplicit, hfree⟩

namespace Program

/-- What a script can be written for. -/
structure Compilable (options : Options) (program : Program) : Prop where
  imported : ∀ command ∈ program.commands, (Import.target? program.imports command.name).isSome
  statuses : options.firstStatus.toNat + options.implicit.length
    + (importedOnly options.implicit program.imports).length ≤ 256
  names : NamesFree options program

/-- Whether there is a script is a matter of functions, imports and the names of commands. -/
theorem Compilable.of_eq {options : Options} {program other : Program}
    (h : program.Compilable options) (hnames : other.functionNames = program.functionNames)
    (himports : other.imports = program.imports)
    (hcommands : other.commands.map (·.name) = program.commands.map (·.name)) :
    other.Compilable options := by
  refine ⟨fun command hcommand => ?_, ?_, (namesFree_congr hnames himports).mpr h.names⟩
  · have hname : command.name ∈ program.commands.map (·.name) :=
      hcommands ▸ List.mem_map_of_mem hcommand
    obtain ⟨original, horiginal, heq⟩ := List.mem_map.mp hname
    rw [himports, ← heq]
    exact h.imported original horiginal
  · rw [himports]
    exact h.statuses

/-- The script of a program. -/
def script (options : Options) (program : Program) : String :=
  assemble ((if options.shebang.isEmpty then [] else [options.shebang])
    ++ checkSections options program.imports
    ++ (program.mapCommands (Command.renamed program.imports)).code.map
      (sectionText options.indent))

end Program

namespace Script

variable {options : Options} {valid : String → Bool} {program : Program}

/-- With statuses left and names free, only the judgement is left to pass. -/
theorem result_generateBy_of_namesFree (h : program.Writable)
    (hstatuses : options.firstStatus.toNat + options.implicit.length
      + (importedOnly options.implicit program.imports).length ≤ 256)
    (hnames : NamesFree options program) :
    (generateBy valid options program).result =
      judged valid options (assemble ((if options.shebang.isEmpty then [] else [options.shebang])
        ++ checkSections options program.imports
        ++ program.code.map (sectionText options.indent))) := by
  obtain ⟨guards, hguards⟩ := guardSections_isOk_iff.mpr hstatuses
  obtain ⟨top, htop⟩ := (outline_isOk_iff_namesFree h).mpr hnames
  obtain ⟨hsections, hmain⟩ := outline_eq htop
  obtain ⟨texts, htexts⟩ := @mainSections_isOk options.indent top.main fun body hbody =>
    h.mainBody (hmain.symm.trans hbody)
  have hcode : top.sections ++ texts = program.code.map (sectionText options.indent) := by
    rw [hsections, mainSections_eq htexts, hmain, Program.code, List.map_append]
    rfl
  rw [result_generateBy, hguards, ← (guardSections_eq_ok hguards).2, ← hcode, ← List.append_assoc]
  simp only [Except.bind, htop, htexts]

theorem generateBy_eq_ok_iff (h : program.Writable) {script : String} :
    (generateBy valid options program).result = .ok script ↔
      options.firstStatus.toNat + options.implicit.length
        + (importedOnly options.implicit program.imports).length ≤ 256 ∧
      NamesFree options program ∧
      judged valid options (assemble ((if options.shebang.isEmpty then [] else [options.shebang])
        ++ checkSections options program.imports
        ++ program.code.map (sectionText options.indent))) = .ok script := by
  constructor
  · intro hscript
    obtain ⟨checks, hchecks, -⟩ := generateBy_eq hscript
    have hstatuses := (guardSections_eq_ok hchecks).1
    have hnames := namesFree_of_generateBy h hscript
    rw [result_generateBy_of_namesFree h hstatuses hnames] at hscript
    exact ⟨hstatuses, hnames, hscript⟩
  · rintro ⟨hstatuses, hnames, hscript⟩
    rw [result_generateBy_of_namesFree h hstatuses hnames, hscript]

end Script

namespace Program

variable {valid : String → Bool} {options : Options} {program : Program}

/-- Resolves a program and writes its script. -/
def toScript (valid : String → Bool) (options : Options) (program : Program) : Run String := do
  let resolved ← program.resolve.toRun
  generateBy valid options resolved

/-- Resolution and generation together. -/
theorem result_toScript_eq_ok_iff (h : program.Flat) {script : String} :
    (program.toScript valid options).result = .ok script ↔
      program.Compilable options ∧ judged valid options (program.script options) = .ok script := by
  have hgenerated := @generateBy_eq_ok_iff options valid
    (program.mapCommands (Command.renamed program.imports)) (h.mapCommands _).writable script
  rw [namesFree_congr (program.functionNames_mapCommands _) (program.imports_mapCommands _),
    imports_mapCommands] at hgenerated
  rw [toScript, Run.result_bind_eq_ok_iff]
  constructor
  · rintro ⟨resolved, hresolved, hscript⟩
    obtain ⟨himported, rfl⟩ := resolve_eq_ok_iff_renamed.mp hresolved
    obtain ⟨hstatuses, hnames, hjudged⟩ := hgenerated.mp hscript
    exact ⟨⟨himported, hstatuses, hnames⟩, hjudged⟩
  · rintro ⟨⟨himported, hstatuses, hnames⟩, hjudged⟩
    exact ⟨_, resolve_eq_ok_iff_renamed.mpr ⟨himported, rfl⟩,
      hgenerated.mpr ⟨hstatuses, hnames, hjudged⟩⟩

/-- A program without a script has a command that is not imported, or fails in generation. -/
theorem cases_of_toScript (h : program.Flat) {e : CompileError}
    (he : (program.toScript valid options).result = .error e) :
    (∃ command ∈ program.commands, Import.target? program.imports command.name = none ∧
      e = .unresolved command.name (some command.position)) ∨
    (∀ command ∈ program.commands, (Import.target? program.imports command.name).isSome) ∧
      (generateBy valid options
        (program.mapCommands (Command.renamed program.imports))).result = .error e ∧
      ∃ fault, e = .generation fault none := by
  rw [toScript, Run.result_bind] at he
  obtain hresolve | ⟨resolved, hresolved, hgenerate⟩ := bind_eq_error_iff.mp he
  · obtain ⟨before, command, after, hcommands, -, hnone, rfl, -⟩ := stopped_of_resolve hresolve
    exact .inl ⟨command, by rw [hcommands]; simp, hnone, rfl⟩
  · obtain ⟨hall, rfl⟩ := eq_mapCommands_of_resolve hresolved
    obtain ⟨fault, rfl, -⟩ := generateBy_eq_error (h.mapCommands _).writable hgenerate
    exact .inr ⟨hall, hgenerate, fault, rfl⟩

/-- An error is one of resolution if some command is not imported, and one of generation else. -/
theorem kind_of_toScript (h : program.Flat) {e : CompileError}
    (he : (program.toScript valid options).result = .error e) :
    e.kind = if ∀ command ∈ program.commands, (Import.target? program.imports command.name).isSome
      then .generation else .resolution := by
  obtain ⟨command, hcommand, hnone, rfl⟩ | ⟨hall, -, fault, rfl⟩ := cases_of_toScript h he
  · rw [if_neg]
    · rfl
    · intro hall
      have hsome := hall command hcommand
      rw [hnone] at hsome
      cases hsome
  · rw [if_pos hall]
    rfl

end Program

namespace Builder

open Grammar

theorem isInner_of_statement {span : List Token} {node : Node} (h : InnerStatement span node) :
    node.isInner = true := by
  obtain h | h := h
  · cases h
    rfl
  · cases h
    rfl

theorem isOuter_of_statement {b : Builder} {span : List Token} {node : Node}
    (h : OuterStatement b.Body span node) : node.isOuter = true := by
  obtain h | h | h := h
  · cases h <;> rfl
  · cases h
    rfl
  · cases h with
    | intro _ _ _ _ _ _ _ _ _ hbody =>
      exact List.all_eq_true.mpr (forall_mem_of_nodesBy (P := fun _ => True) body_steps
        inner_terminated (fun _ _ _ => isInner_of_statement) (fun _ _ => trivial) hbody.2)

/-- What is built at top level is flat, whatever the tokens. -/
theorem flat_of_build {b : Builder} (hscope : b.scope = .topLevel) {ts : List Token}
    {program : Program} (h : (b.build ts).result = .ok program) : program.Flat := by
  rw [build, result_buildBy] at h
  obtain ⟨nodes, hnodes, rfl⟩ := map_eq_ok_iff.mp h
  exact forall_mem_of_nodesBy (P := fun _ => True) (rules_steps hscope) (outer_terminated b)
    (fun _ _ _ => isOuter_of_statement) (fun _ _ => trivial) hnodes

end Builder

namespace Compiler

open Token (bare)

theorem scriptOf_eq (valid : String → Bool) (config : Config) (ts : List Token) :
    scriptOf valid config ts =
      (({ options := config.buildOptions } : Builder).build ts).result.bind fun program =>
        (program.toScript valid config.scriptOptions).result := by
  rw [scriptOf]
  congr 1
  funext program
  rw [Program.toScript, Run.result_bind]

theorem scriptOf_eq_ok_iff {valid : String → Bool} {config : Config} {ts : List Token}
    {script : String} :
    scriptOf valid config ts = .ok script ↔ ∃ program,
      (({ options := config.buildOptions } : Builder).build ts).result = .ok program ∧
      program.Compilable config.scriptOptions ∧
      judged valid config.scriptOptions (program.script config.scriptOptions) = .ok script := by
  rw [scriptOf_eq, bind_eq_ok_iff]
  constructor
  · rintro ⟨program, hbuild, hscript⟩
    exact ⟨program, hbuild,
      (Program.result_toScript_eq_ok_iff (Builder.flat_of_build rfl hbuild)).mp hscript⟩
  · rintro ⟨program, hbuild, hscript⟩
    exact ⟨program, hbuild,
      (Program.result_toScript_eq_ok_iff (Builder.flat_of_build rfl hbuild)).mpr hscript⟩

/-- The script of a source is that of its pieces. -/
theorem compileBy_eq_ok_iff {valid : String → Bool} {config : Config} {file : Option String}
    {source script : String} :
    (compileBy valid config file source).result = .ok script ↔
      ∃ ts, Token.layOut ((Fragment.split source.toList).map bare) = .ok ts ∧
        scriptOf valid config ts = .ok script := by
  have hforget : mapBoth (CompileError.moved Position.forget) id
      (compileBy valid config file source).result =
        (Token.layOut ((Fragment.split source.toList).map bare)).bind (scriptOf valid config) := by
    rw [result_compileBy, ← bind_mapBoth (scriptOf_moved valid config), result_tokens_forget]
  rw [← bind_eq_ok_iff, ← hforget, mapBoth_eq_ok_iff]
  simp

end Compiler

end CheckedScript
