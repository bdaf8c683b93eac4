import Mathlib
import CheckedScript.Compiler
import CheckedScript.Proofs.Code
import CheckedScript.Proofs.Resolution

/-!
Every command that a script runs is checked for first. The statuses of the checks are distinct,
and generation reports that none is left exactly if there are more checks than statuses.

Main results:
* `Script.result_generateBy_eq_noStatus_iff`: which command is named when the statuses run out.
* `Compiler.commands_checked_with_distinct_statuses`: the text of the checks, their order and
  statuses, and that they cover the commands of the code.

What the checks do when they are run is left to the shell.
-/

namespace CheckedScript

open Script

namespace Script

/-! ## No status left -/

theorem ne_noStatus_of_within {α : Type} {node : Node} {r : Except CompileError α}
    {e : CompileError} (h : within node r = .error e) (command : String) :
    e ≠ noStatus command := by
  cases r with
  | ok a => cases h
  | error cause =>
    cases h
    simp [noStatus]

theorem emitAll_ne_noStatus (indent : String) (level : Nat) (nodes : List Node)
    (command : String) : emitAll indent level nodes ≠ .error (noStatus command) := by
  induction nodes with
  | nil => simp [emitAll]
  | cons node rest ih =>
    rw [emitAll]
    split
    case h_1 e he => exact fun h => ne_noStatus_of_within he command (Except.error.inj h)
    case h_2 => rwa [ne_eq, map_eq_error_iff]

theorem mainSections_ne_noStatus (indent : String) (body? : Option (List Node))
    (command : String) : mainSections indent body? ≠ .error (noStatus command) := by
  cases body? with
  | none => simp [mainSections]
  | some body =>
    rw [mainSections, mainSection, ne_eq, map_eq_error_iff, map_eq_error_iff]
    exact emitAll_ne_noStatus indent 0 body command

theorem outline_ne_noStatus (options : Options) (imports : List Import) (helpers : List String)
    (main : Option (List Node)) (nodes : List Node) (command : String) :
    outline options imports helpers main nodes ≠ .error (noStatus command) := by
  fun_induction outline options imports helpers main nodes with
  | case1 => simp
  | case2 => simp [noStatus]
  | case3 _ _ _ _ _ _ _ ih => exact ih
  | case4 => simp [noStatus]
  | case5 _ _ _ _ _ _ _ e he =>
    exact fun h => ne_noStatus_of_within he command (Except.error.inj h)
  | case6 _ _ _ _ _ _ _ _ _ ih => rwa [ne_eq, map_eq_error_iff]
  | case7 _ _ _ _ _ e he =>
    exact fun h => ne_noStatus_of_within he command (Except.error.inj h)
  | case8 _ _ _ _ _ _ _ ih => rwa [ne_eq, map_eq_error_iff]

theorem judged_ne_noStatus (valid : String → Bool) (options : Options) (text command : String) :
    judged valid options text ≠ .error (noStatus command) := by
  rw [judged]
  split <;> simp [noStatus]

/-- Only the checks run out of statuses, at the command that would be given 256. -/
theorem result_generateBy_eq_noStatus_iff {valid : String → Bool} {options : Options}
    {program : Program} {command : String} :
    (generateBy valid options program).result = .error (noStatus command) ↔
      (options.implicit ++ importedOnly options.implicit program.imports)[
        256 - options.firstStatus.toNat]? = some command := by
  rw [result_generateBy, bind_eq_error_iff, or_iff_left ?later, guardSections_eq]
  case later =>
    -- What comes after the checks fails with other errors.
    rintro ⟨checks, -, h⟩
    obtain h | ⟨top, -, h⟩ := bind_eq_error_iff.mp h
    · exact outline_ne_noStatus _ _ _ _ _ command h
    · obtain h | ⟨main, -, h⟩ := bind_eq_error_iff.mp h
      · exact mainSections_ne_noStatus _ _ command h
      · exact judged_ne_noStatus _ _ _ command h
  cases (options.implicit ++ importedOnly options.implicit program.imports)[
      256 - options.firstStatus.toNat]? with
  | none => simp
  | some last => simp [noStatus]

/-! ## Coverage -/

/-- An imported command has a guard, as an import or as an implicit command. -/
theorem mem_guarded_of_mem_imports {implicit : List String} {imports : List Import}
    {declaration : Import} (h : declaration ∈ imports) :
    declaration.name ∈ implicit ++ importedOnly implicit imports := by
  rw [List.mem_append]
  by_cases himplicit : declaration.name ∈ implicit
  · exact .inl himplicit
  · refine .inr (List.mem_eraseDups.mpr (List.mem_filter.mpr ⟨?_, by simpa using himplicit⟩))
    exact List.mem_map.mpr ⟨declaration, h, rfl⟩

/-- Only the blocks of imported commands echo something. -/
theorem text_of_guards {options : Options} {imports : List Import} {i : Nat} {guard : Guard}
    (h : (guards options imports)[i]? = some guard) :
    guard.text options.indent =
      "if [[ -z \"$( which " ++ guard.command ++ " )\" ]]; then\n" ++
        (if i < options.implicit.length then "" else options.indent ++ "echo \"" ++
          ("imported command " ++ guard.command ++ " could not be found") ++ "\"\n") ++
        options.indent ++ "exit " ++ toString guard.status ++ "\nfi" := by
  rw [Guard.text, message_of_guards h]
  by_cases hi : i < options.implicit.length
  · rw [if_pos hi, if_pos hi]
    exact rfl
  · rw [if_neg hi, if_neg hi]
    exact rfl

theorem map_text_guards (options : Options) (imports : List Import) :
    (guards options imports).map (Guard.text options.indent) =
      ((guards options imports).map fun guard => (guard.command, guard.status)).mapIdx
        fun i (command, status) =>
          "if [[ -z \"$( which " ++ command ++ " )\" ]]; then\n" ++
            (if i < options.implicit.length then "" else options.indent ++ "echo \"" ++
              ("imported command " ++ command ++ " could not be found") ++ "\"\n") ++
            options.indent ++ "exit " ++ toString status ++ "\nfi" := by
  refine List.ext_getElem? fun i => ?_
  rw [List.getElem?_map, List.getElem?_mapIdx, List.getElem?_map]
  cases hguard : (guards options imports)[i]? with
  | none => rfl
  | some guard => simp only [Option.map_some, text_of_guards hguard]

/-- The statuses count up from the first. -/
theorem status_of_guards {options : Options} {imports : List Import} {i : Nat} {guard : Guard}
    (h : (guards options imports)[i]? = some guard) :
    guard.status = options.firstStatus.toNat + i ∧
      i < options.implicit.length + (importedOnly options.implicit imports).length := by
  have hstatus : ((guards options imports).map Guard.status)[i]? = some guard.status := by
    rw [List.getElem?_map, h, Option.map_some]
  rw [map_status_guards] at hstatus
  obtain ⟨hi, hstatus⟩ := List.getElem?_eq_some_iff.mp hstatus
  rw [List.getElem_range', Nat.one_mul] at hstatus
  rw [List.length_range'] at hi
  exact ⟨hstatus.symm, hi⟩

end Script

namespace Compiler

theorem compileBy_eq_ok {valid : String → Bool} {config : Config} {file : Option String}
    {source script : String} (h : (compileBy valid config file source).result = .ok script) :
    ∃ parsed resolved, (parse config file source).result = .ok parsed ∧
      parsed.resolve.toRun.result = .ok resolved ∧
      (generateBy valid config.scriptOptions resolved).result = .ok script := by
  obtain ⟨parsed, hparsed, h⟩ := Run.result_bind_eq_ok_iff.mp h
  obtain ⟨resolved, hresolved, h⟩ := Run.result_bind_eq_ok_iff.mp h
  exact ⟨parsed, resolved, hparsed, hresolved, h⟩

/-- The script of a source checks for every command that it runs, and a program has no script for
want of a status exactly if there are more checks than statuses from the first to 255. -/
theorem commands_checked_with_distinct_statuses (valid : String → Bool) :
    (∀ (config : Config) (file : Option String) (source script : String),
      (compileBy valid config file source).result = .ok script →
      ∃ (parsed resolved : Program) (checks : List (String × Nat)),
        (parse config file source).result = .ok parsed ∧
        parsed.resolve.toRun.result = .ok resolved ∧
        script = String.intercalate "\n\n"
          ((if config.output.shebang.isEmpty then [] else [config.output.shebang]) ++
            (checks.mapIdx fun i (command, status) =>
              "if [[ -z \"$( which " ++ command ++ " )\" ]]; then\n" ++
                (if i < config.commands.implicit.length then "" else config.output.indent ++
                  "echo \"" ++ ("imported command " ++ command ++ " could not be found") ++
                  "\"\n") ++
                config.output.indent ++ "exit " ++ toString status ++ "\nfi").modifyHead
              ((if config.commands.implicit.isEmpty then "" else
                preambleHeader config.commands.implicit ++ "\n") ++ ·) ++
            resolved.code.map fun lines => String.intercalate "\n" (lines.map fun line =>
              String.join (List.replicate line.level config.output.indent) ++ line.line.text))
          ++ "\n" ∧
        checks.map Prod.fst =
          config.commands.implicit ++ importedOnly config.commands.implicit parsed.imports ∧
        (∀ i command status, checks[i]? = some (command, status) →
          status = config.output.firstExitCode.toNat + i ∧ status ≤ 255) ∧
        (checks.map Prod.snd).Nodup ∧
        ∀ lines ∈ resolved.code, ∀ line ∈ lines, ∀ command, line.line = .command command →
          line.line.text = command.name ++
              String.join (command.args.map fun arg => " \"" ++ arg ++ "\"") ∧
            command.name ∈ checks.map Prod.fst) ∧
    ∀ (options : Options) (program : Program),
      ((∃ command, (generateBy valid options program).result =
          .error (.generation (.noStatusLeft command) none)) ↔
        256 < options.firstStatus.toNat + options.implicit.length
          + (importedOnly options.implicit program.imports).length) ∧
      ∀ command, (generateBy valid options program).result =
          .error (.generation (.noStatusLeft command) none) →
        (options.implicit ++ importedOnly options.implicit program.imports)[
            256 - options.firstStatus.toNat]? = some command ∧
          (CompileError.generation (.noStatusLeft command) none).message =
            "code generation failed: " ++
              ("no exit status left for the check of `" ++ command ++ "`") := by
  refine ⟨?_, fun options program => ⟨?_, fun command h =>
    ⟨result_generateBy_eq_noStatus_iff.mp h, rfl⟩⟩⟩
  · intro config file source script h
    obtain ⟨parsed, resolved, hparsed, hresolved, hscript⟩ := compileBy_eq_ok h
    have himports : resolved.imports = parsed.imports := by
      rw [(Program.eq_mapCommands_of_resolve hresolved).2, Program.imports_mapCommands]
    obtain ⟨texts, htexts, rfl⟩ := generateBy_eq hscript
    rw [himports] at htexts
    obtain ⟨hlength, rfl⟩ := guardSections_eq_ok htexts
    refine ⟨parsed, resolved, (guards config.scriptOptions parsed.imports).map fun guard =>
      (guard.command, guard.status), hparsed, hresolved, ?_, ?_, ?_, ?_, ?_⟩
    · rw [assemble, intercalate_checkSections, map_text_guards]
      rfl
    · rw [List.map_map]
      exact map_command_guards _ _
    · intro i command status hcheck
      rw [List.getElem?_map] at hcheck
      obtain ⟨guard, hguard, hpair⟩ := Option.map_eq_some_iff.mp hcheck
      obtain ⟨rfl, rfl⟩ := Prod.mk.inj hpair
      obtain ⟨hstatus, hi⟩ := status_of_guards hguard
      refine ⟨hstatus, ?_⟩
      rw [hstatus]
      omega
    · rw [List.map_map]
      exact (map_status_guards _ _).symm ▸ List.nodup_range'
    · intro lines hlines line hline command hcommand
      rw [hcommand, Line.text, renderCommand_eq]
      have hmem := Program.mem_commands_of_code hlines
        (List.mem_filterMap.mpr ⟨line, hline, CodeLine.command?_of_line hcommand⟩)
      obtain ⟨declaration, hdeclaration, hname⟩ := Program.mem_imports_of_resolve hresolved hmem
      refine ⟨rfl, ?_⟩
      rw [List.map_map]
      refine (map_command_guards config.scriptOptions parsed.imports).symm ▸ ?_
      rw [hname]
      exact mem_guarded_of_mem_imports hdeclaration
  · have hfirst : options.firstStatus.toNat < 256 := options.firstStatus.toNat_lt
    have hexists : (∃ command, (generateBy valid options program).result =
        .error (.generation (.noStatusLeft command) none)) ↔
        256 - options.firstStatus.toNat <
          (options.implicit ++ importedOnly options.implicit program.imports).length := by
      constructor
      · rintro ⟨command, h⟩
        exact (List.getElem?_eq_some_iff.mp (result_generateBy_eq_noStatus_iff.mp h)).1
      · intro h
        exact ⟨_, result_generateBy_eq_noStatus_iff.mpr (List.getElem?_eq_getElem h)⟩
    rw [hexists, List.length_append]
    omega

/-- Statuses for two checks, one of them of an implicit command. -/
def twoStatuses : Config :=
  { commands := { implicit := ["which"] }, output := { firstExitCode := 254 } }

/-- The last two statuses, and a program with one import more than there are statuses for. -/
theorem checks_up_to_last_status :
    (∃ script, (compileBy (fun _ => true) twoStatuses none
          "import a as b;main:():\x7b$b[\"x\"]\x7d").result = .ok script ∧
      script = "# check for which by default\n"
        ++ "if [[ -z \"$( which which )\" ]]; then\n\texit 254\nfi\n\n"
        ++ "if [[ -z \"$( which a )\" ]]; then\n"
        ++ "\techo \"imported command a could not be found\"\n\texit 255\nfi\n\n"
        ++ "# main code\na \"x\"\n" ∧
      ∃ checks : List (String × Nat), checks.map Prod.fst = ["which", "a"] ∧
        ∀ i command status, checks[i]? = some (command, status) →
          status = 254 + i ∧ status ≤ 255) ∧
    (generateBy (fun _ => true) twoStatuses.scriptOptions
        ⟨[.importing ⟨"a", none, {}⟩, .importing ⟨"c", none, {}⟩]⟩).result =
      .error (.generation (.noStatusLeft "c") none) := by
  obtain ⟨hcompiles, hexhausted⟩ := commands_checked_with_distinct_statuses fun _ => true
  refine ⟨?_, ?_⟩
  · have hprogram : (parse twoStatuses none "import a as b;main:():\x7b$b[\"x\"]\x7d").result =
        .ok ⟨[.importing ⟨"a", some "b", {}⟩, .function ⟨"main", [], none, { column := 15 }⟩
          [.invocation ⟨"b", ["x"], { column := 25 }⟩]]⟩ := by cbv
    obtain ⟨script, hscript⟩ : ∃ script, (compileBy (fun _ => true) twoStatuses none
        "import a as b;main:():\x7b$b[\"x\"]\x7d").result = .ok script := by
      rw [compileBy, Run.result_bind, hprogram]
      exact ⟨_, rfl⟩
    obtain ⟨parsed, resolved, checks, hparsed, -, -, hcommands, hstatuses, -⟩ :=
      hcompiles twoStatuses none _ script hscript
    obtain rfl := Except.ok.inj (hprogram.symm.trans hparsed)
    refine ⟨script, hscript, ?_, checks, hcommands.trans (by decide), hstatuses⟩
    exact Except.ok.inj (hscript.symm.trans (eq_ok_of_toOption (by decide +kernel)))
  · obtain ⟨hfails, hnamed⟩ := hexhausted twoStatuses.scriptOptions
      ⟨[.importing ⟨"a", none, {}⟩, .importing ⟨"c", none, {}⟩]⟩
    obtain ⟨command, hcommand⟩ := hfails.mpr (by decide)
    obtain rfl : "c" = command := Option.some.inj (hnamed command hcommand).1
    exact hcommand

end Compiler

end CheckedScript
