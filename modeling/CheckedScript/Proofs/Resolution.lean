import CheckedScript.Proofs.Tree

/-!
What resolution does to a program. Commands are renamed depth first, each to the command that the
first import providing it stands for, up to the first one that no import provides. There the tree
is left as it is. `Progress` says this of the list of commands; the shape never changes.

Main results:
* `Program.resolve_eq_ok_iff_renamed`: which programs are resolved, and to what.
* `Program.resolve_renames_up_to_first_unresolved`: also what is left of the others.
* `Program.resolve_stable`: resolving twice.
-/

namespace CheckedScript

namespace Import

/-- The command that `command` stands for: the name of the first import whose name or alias it
is. -/
def target? (imports : List Import) (command : String) : Option String :=
  (imports.find? fun declaration =>
    declaration.name = command ∨ declaration.aliasName = some command).map (·.name)

theorem target?_mem {imports : List Import} {command name : String}
    (h : target? imports command = some name) :
    ∃ declaration ∈ imports, declaration.name = name := by
  obtain ⟨declaration, hfind, hname⟩ := Option.map_eq_some_iff.mp h
  exact ⟨declaration, List.mem_of_find?_eq_some hfind, hname⟩

/-- The name that a lookup leads to. -/
theorem target?_eq (imports : List Import) (command : String) :
    target? imports command = (lookup imports command).map fun
      | .name => command
      | .aliasOf name => name := by
  induction imports with
  | nil => rfl
  | cons declaration imports ih =>
    rw [target?, lookup] at ih
    rw [target?, lookup, List.find?_cons, List.findSome?_cons, provides]
    -- Both searches end here if the import provides the command, under its name or its alias.
    by_cases hname : declaration.name = command
    · simp [hname]
    · by_cases halias : declaration.aliasName = some command
      · simp [hname, halias]
      · simpa [hname, halias] using ih

end Import

namespace Command

/-- The command under the name that it stands for. -/
def renamed (imports : List Import) (command : Command) : Command :=
  { command with name := (Import.target? imports command.name).getD command.name }

theorem resolve_of_isSome {imports : List Import} {command : Command}
    (h : (Import.target? imports command.name).isSome) :
    (command.resolve imports).tree = command.renamed imports ∧
      (command.resolve imports).failure = none := by
  rw [Import.target?_eq, Option.isSome_map] at h
  rw [renamed, Import.target?_eq, resolve]
  obtain ⟨resolution, hresolution⟩ := Option.isSome_iff_exists.mp h
  cases resolution <;> simp [hresolution]

theorem resolve_of_eq_none {imports : List Import} {command : Command}
    (h : Import.target? imports command.name = none) :
    (command.resolve imports).tree = command ∧
      (command.resolve imports).failure =
        some (.unresolved command.name (some command.position)) := by
  rw [Import.target?_eq, Option.map_eq_none_iff] at h
  rw [resolve, h]
  exact ⟨rfl, rfl⟩

end Command

/-- How far the renaming of a list of commands comes, what it leaves and how it ends. -/
inductive Progress (imports : List Import) :
    List Command → List Command → Option CompileError → Prop
  | complete {commands : List Command}
      (h : ∀ command ∈ commands, (Import.target? imports command.name).isSome) :
      Progress imports commands (commands.map (Command.renamed imports)) none
  | stopped {before : List Command} (command : Command) (after : List Command)
      (h : ∀ command ∈ before, (Import.target? imports command.name).isSome)
      (hnone : Import.target? imports command.name = none) :
      Progress imports (before ++ command :: after)
        (before.map (Command.renamed imports) ++ command :: after)
        (some (.unresolved command.name (some command.position)))

namespace Progress

variable {imports : List Import} {commands commands' others others' : List Command}
  {failure : Option CompileError}

theorem nil : Progress imports [] [] none := complete (by simp)

theorem append (h : Progress imports commands commands' none)
    (hothers : Progress imports others others' failure) :
    Progress imports (commands ++ others) (commands' ++ others') failure := by
  obtain ⟨hall⟩ := h
  cases hothers with
  | complete hothers =>
    rw [← List.map_append]
    exact complete fun command hmem => (List.mem_append.mp hmem).elim (hall _) (hothers _)
  | stopped command after hbefore hnone =>
    rw [← List.append_assoc, ← List.append_assoc, ← List.map_append]
    exact stopped command after
      (fun command hmem => (List.mem_append.mp hmem).elim (hall _) (hbefore _)) hnone

theorem append_of_stopped {e : CompileError} (h : Progress imports commands commands' (some e))
    (others : List Command) :
    Progress imports (commands ++ others) (commands' ++ others) (some e) := by
  cases h with
  | stopped command after hbefore hnone =>
    rw [List.append_assoc, List.append_assoc]
    exact stopped command (after ++ others) hbefore hnone

theorem of_none (h : Progress imports commands commands' none) :
    (∀ command ∈ commands, (Import.target? imports command.name).isSome) ∧
      commands' = commands.map (Command.renamed imports) := by
  obtain ⟨hall⟩ := h
  exact ⟨hall, rfl⟩

theorem of_some {e : CompileError} (h : Progress imports commands commands' (some e)) :
    ∃ before command after, commands = before ++ command :: after ∧
      (∀ earlier ∈ before, (Import.target? imports earlier.name).isSome) ∧
      Import.target? imports command.name = none ∧
      e = .unresolved command.name (some command.position) ∧
      commands' = before.map (Command.renamed imports) ++ command :: after := by
  cases h with
  | stopped command after hbefore hnone =>
    exact ⟨_, command, after, rfl, hbefore, hnone, rfl, rfl⟩

/-- One command is renamed, or kept with an error. -/
theorem of_resolve (imports : List Import) (command : Command) :
    Progress imports [command] [(command.resolve imports).tree]
      (command.resolve imports).failure := by
  cases htarget : Import.target? imports command.name with
  | none =>
    obtain ⟨htree, hfailure⟩ := Command.resolve_of_eq_none htarget
    rw [htree, hfailure]
    exact @stopped imports [] command [] (by simp) htarget
  | some name =>
    obtain ⟨htree, hfailure⟩ := Command.resolve_of_isSome (Option.isSome_of_eq_some htarget)
    rw [htree, hfailure]
    exact @complete imports [command] (by simp [htarget])

end Progress

namespace Node

/-- Where the walk through one tree goes on to the next, and where it ends. -/
theorem progress_resolveAll {imports : List Import} {nodes : List Node}
    (h : ∀ node ∈ nodes, Progress imports node.commands (node.resolve imports).tree.commands
      (node.resolve imports).failure) :
    Progress imports (nodes.flatMap commands)
      ((resolveAll imports nodes).tree.flatMap commands) (resolveAll imports nodes).failure := by
  induction nodes with
  | nil => exact .nil
  | cons node rest ih =>
    have hfirst := h node (List.mem_cons_self ..)
    have hrest := ih fun node hmem => h node (List.mem_cons_of_mem _ hmem)
    rw [resolveAll, List.flatMap_cons]
    split
    case h_1 e hfailure =>
      -- The trees behind a failure stay as they are.
      rw [hfailure] at hfirst
      exact hfirst.append_of_stopped _
    case h_2 hfailure =>
      rw [hfailure] at hfirst
      exact hfirst.append hrest

theorem progress_resolve (imports : List Import) (node : Node) :
    Progress imports node.commands (node.resolve imports).tree.commands
      (node.resolve imports).failure := by
  induction node with
  | root children ih =>
    rw [resolve, Resolved.map, commands_root, commands_root]
    exact progress_resolveAll ih
  | function signature body ih =>
    rw [resolve, Resolved.map, commands_function, commands_function]
    exact progress_resolveAll ih
  | invocation command => exact .of_resolve imports command
  | expression command => exact .of_resolve imports command
  | importing | param | comment => exact .nil

theorem shape_resolveAll {imports : List Import} {nodes : List Node}
    (h : ∀ node ∈ nodes, (node.resolve imports).tree.shape = node.shape) :
    (resolveAll imports nodes).tree.map shape = nodes.map shape := by
  induction nodes with
  | nil => rfl
  | cons node rest ih =>
    have hfirst := h node (List.mem_cons_self ..)
    have hrest := ih fun node hmem => h node (List.mem_cons_of_mem _ hmem)
    rw [resolveAll]
    split
    · rw [List.map_cons, List.map_cons, hfirst]
    · rw [List.map_cons, List.map_cons, hfirst, hrest]

theorem shape_resolve (imports : List Import) (node : Node) :
    (node.resolve imports).tree.shape = node.shape := by
  induction node with
  | root children ih => rw [resolve, Resolved.map, shape_root, shape_root, shape_resolveAll ih]
  | function signature body ih =>
    rw [resolve, Resolved.map, shape_function, shape_function, shape_resolveAll ih]
  | importing | param | invocation | expression | comment => rfl

end Node

namespace Program

theorem progress_resolve (program : Program) :
    Progress program.imports program.commands program.resolve.tree.commands
      program.resolve.failure := by
  rw [commands_eq, commands_eq]
  exact Node.progress_resolveAll fun node _ => node.progress_resolve _

theorem shape_resolve (program : Program) : program.resolve.tree.shape = program.shape :=
  congrArg mk (Node.shape_resolveAll fun node _ => node.shape_resolve _)

theorem result_resolve_eq_ok_iff {program resolved : Program} :
    program.resolve.toRun.result = .ok resolved ↔
      program.resolve.failure = none ∧ program.resolve.tree = resolved := by
  rw [Resolved.toRun]
  split <;> simp_all

theorem result_resolve_eq_error_iff {program : Program} {e : CompileError} :
    program.resolve.toRun.result = .error e ↔ program.resolve.failure = some e := by
  rw [Resolved.toRun]
  split <;> simp_all

/-- A resolved program is the program with its commands renamed. -/
theorem eq_mapCommands_of_resolve {program resolved : Program}
    (h : program.resolve.toRun.result = .ok resolved) :
    (∀ command ∈ program.commands, (Import.target? program.imports command.name).isSome) ∧
      resolved = program.mapCommands (Command.renamed program.imports) := by
  obtain ⟨hfailure, rfl⟩ := result_resolve_eq_ok_iff.mp h
  have hprogress := program.progress_resolve
  rw [hfailure] at hprogress
  obtain ⟨hall, hcommands⟩ := hprogress.of_none
  refine ⟨hall, eq_of_shape_of_commands ?_ ?_⟩
  · rw [shape_resolve, shape_mapCommands]
  · rw [hcommands, commands_mapCommands]

/-- After resolution every command is the name of an import. -/
theorem mem_imports_of_resolve {program resolved : Program}
    (h : program.resolve.toRun.result = .ok resolved) {command : Command}
    (hmem : command ∈ resolved.commands) :
    ∃ declaration ∈ program.imports, command.name = declaration.name := by
  obtain ⟨hall, rfl⟩ := eq_mapCommands_of_resolve h
  rw [commands_mapCommands] at hmem
  obtain ⟨original, horiginal, rfl⟩ := List.mem_map.mp hmem
  obtain ⟨name, htarget⟩ := Option.isSome_iff_exists.mp (hall original horiginal)
  obtain ⟨declaration, hdeclaration, hname⟩ := Import.target?_mem htarget
  refine ⟨declaration, hdeclaration, ?_⟩
  rw [Command.renamed, htarget, Option.getD_some, hname]

theorem stopped_of_resolve {program : Program} {e : CompileError}
    (h : program.resolve.toRun.result = .error e) :
    ∃ before command after, program.commands = before ++ command :: after ∧
      (∀ earlier ∈ before, (Import.target? program.imports earlier.name).isSome) ∧
      Import.target? program.imports command.name = none ∧
      e = .unresolved command.name (some command.position) ∧
      program.resolve.tree.commands =
        before.map (Command.renamed program.imports) ++ command :: after := by
  have hprogress := program.progress_resolve
  rw [result_resolve_eq_error_iff.mp h] at hprogress
  exact hprogress.of_some

/-- Resolution succeeds if every command is the name or alias of an import, and then renames the
commands and nothing else. Otherwise it reports the first command that is neither, having
renamed those before it. -/
theorem resolve_renames_up_to_first_unresolved (program : Program) :
    program.imports = program.nodes.filterMap Node.import? ∧
    ((∃ resolved, program.resolve.toRun.result = .ok resolved) ↔
      ∀ command ∈ program.commands, (Import.target? program.imports command.name).isSome) ∧
    (∀ resolved, program.resolve.toRun.result = .ok resolved →
      resolved = program.mapCommands (Command.renamed program.imports) ∧
      ∀ command ∈ resolved.commands,
        ∃ declaration ∈ program.imports, command.name = declaration.name) ∧
    (∀ e, program.resolve.toRun.result = .error e →
      ∃ before command after, program.commands = before ++ command :: after ∧
        (∀ earlier ∈ before, (Import.target? program.imports earlier.name).isSome) ∧
        Import.target? program.imports command.name = none ∧
        e = .unresolved command.name (some command.position) ∧
        program.resolve.tree.shape = program.shape ∧
        program.resolve.tree.commands =
          before.map (Command.renamed program.imports) ++ command :: after) := by
  refine ⟨program.imports_eq, ⟨?_, ?_⟩, ?_, ?_⟩
  · rintro ⟨resolved, h⟩
    exact (eq_mapCommands_of_resolve h).1
  · intro hall
    cases h : program.resolve.toRun.result with
    | ok resolved => exact ⟨resolved, rfl⟩
    | error e =>
      obtain ⟨before, command, after, hsplit, -, hnone, -⟩ := stopped_of_resolve h
      have hsome := hall command (by simp [hsplit])
      simp [hnone] at hsome
  · intro resolved h
    exact ⟨(eq_mapCommands_of_resolve h).2, fun command => mem_imports_of_resolve h⟩
  · intro e h
    obtain ⟨before, command, after, hsplit, hbefore, hnone, he, htree⟩ := stopped_of_resolve h
    exact ⟨before, command, after, hsplit, hbefore, hnone, he, program.shape_resolve, htree⟩

end Program

/-! ## Resolving a second time -/

namespace Import

/-- No alias captures a name: for an alias that is also the name of an import, an import of that
name stands at the alias or before it. -/
def Uncaptured (imports : List Import) : Prop :=
  ∀ i : Fin imports.length, ∀ name ∈ imports[i].aliasName,
    (∀ declaration ∈ imports, declaration.name ≠ name) ∨ ∃ j ≤ i, imports[j].name = name

instance (imports : List Import) : Decidable (Uncaptured imports) :=
  inferInstanceAs (Decidable (∀ i : Fin imports.length, ∀ name ∈ imports[i].aliasName,
    (∀ declaration ∈ imports, declaration.name ≠ name) ∨ ∃ j ≤ i, imports[j].name = name))

theorem target?_isSome_of_mem {imports : List Import} {declaration : Import}
    (h : declaration ∈ imports) : (target? imports declaration.name).isSome := by
  rw [target?, Option.isSome_map, List.find?_isSome]
  exact ⟨declaration, h, by simp⟩

/-- A name that no alias captures stands for itself. -/
theorem Uncaptured.target?_name {imports : List Import} (h : Uncaptured imports)
    {declaration : Import} (hmem : declaration ∈ imports) :
    target? imports declaration.name = some declaration.name := by
  obtain ⟨name, htarget⟩ := Option.isSome_iff_exists.mp (target?_isSome_of_mem hmem)
  obtain ⟨first, hfirst, rfl⟩ := Option.map_eq_some_iff.mp htarget
  obtain ⟨hprovides, i, hi, rfl, hearlier⟩ := List.find?_eq_some_iff_getElem.mp hfirst
  rw [htarget]
  obtain hname | halias := of_decide_eq_true hprovides
  · rw [hname]
  · obtain hnone | ⟨j, hj, hname⟩ := h ⟨i, hi⟩ declaration.name halias
    · exact absurd rfl (hnone declaration hmem)
    · obtain hlt | rfl := Nat.lt_or_eq_of_le hj
      · -- An import of that name before the alias would have been found first.
        obtain ⟨hne, -⟩ : imports[j].name ≠ declaration.name ∧
            imports[j].aliasName ≠ some declaration.name := by simpa using hearlier j hlt
        exact absurd hname hne
      · exact congrArg some hname

end Import

namespace Program

/-- A program is resolved exactly if all its commands are imported, and only they change. -/
theorem resolve_eq_ok_iff_renamed {program resolved : Program} :
    program.resolve.toRun.result = .ok resolved ↔
      (∀ command ∈ program.commands, (Import.target? program.imports command.name).isSome) ∧
        resolved = program.mapCommands (Command.renamed program.imports) := by
  refine ⟨eq_mapCommands_of_resolve, fun h => ?_⟩
  obtain ⟨hall, rfl⟩ := h
  cases hresult : program.resolve.toRun.result with
  | error e =>
    obtain ⟨before, command, after, hcommands, -, hnone, -⟩ := stopped_of_resolve hresult
    have hsome := hall command (by rw [hcommands]; simp)
    rw [hnone] at hsome
    cases hsome
  | ok resolved => rw [(eq_mapCommands_of_resolve hresult).2]

theorem mapCommands_eq_self {program : Program} {f : Command → Command}
    (h : ∀ command ∈ program.commands, f command = command) : program.mapCommands f = program := by
  refine eq_of_shape_of_commands (shape_mapCommands f program) ?_
  rw [commands_mapCommands, List.map_congr_left h, List.map_id']

/-- A resolved program can be resolved again, and stays as it is unless an alias captures the name
of an import. -/
theorem resolve_stable {program resolved : Program}
    (h : program.resolve.toRun.result = .ok resolved) :
    (∃ again, resolved.resolve.toRun.result = .ok again) ∧
    (Import.Uncaptured program.imports → resolved.resolve.toRun.result = .ok resolved) := by
  have himports : resolved.imports = program.imports := by
    rw [(eq_mapCommands_of_resolve h).2, imports_mapCommands]
  have himported : ∀ command ∈ resolved.commands,
      (Import.target? resolved.imports command.name).isSome := by
    intro command hcommand
    obtain ⟨declaration, hdeclaration, hname⟩ := mem_imports_of_resolve h hcommand
    rw [himports, hname]
    exact Import.target?_isSome_of_mem hdeclaration
  have hresult := resolve_eq_ok_iff_renamed.mpr ⟨himported, rfl⟩
  refine ⟨⟨_, hresult⟩, fun hfree => ?_⟩
  rw [hresult, mapCommands_eq_self]
  intro command hcommand
  obtain ⟨declaration, hdeclaration, hname⟩ := mem_imports_of_resolve h hcommand
  rw [Command.renamed, himports, hname, hfree.target?_name hdeclaration, Option.getD_some, ← hname]

/-- An alias that is a name too, behind the import of that name. -/
theorem resolve_stable_behind_name :
    let calling (word : String) : Program := ⟨[.importing ⟨"b", none, {}⟩,
      .importing ⟨"a", some "b", {}⟩, .importing ⟨"c", some "d", {}⟩,
      .function ⟨"main", [], none, {}⟩ [.invocation ⟨word, ["x"], {}⟩, .expression ⟨"b", [], {}⟩]]⟩
    (calling "d").resolve.toRun.result = .ok (calling "c") ∧
      Import.Uncaptured (calling "d").imports ∧
      (∃ again, (calling "c").resolve.toRun.result = .ok again) ∧
      (calling "c").resolve.toRun.result = .ok (calling "c") := by
  intro calling
  have hresolved : (calling "d").resolve.toRun.result = .ok (calling "c") := by rfl
  have hfree : Import.Uncaptured (calling "d").imports := by decide
  obtain ⟨hagain, hstable⟩ := resolve_stable hresolved
  exact ⟨hresolved, hfree, hagain, hstable hfree⟩

-- A name captured by an alias in front of it is renamed once more.
example :
    let calling (word : String) : Program := ⟨[.importing ⟨"a", some "b", {}⟩,
      .importing ⟨"b", some "c", {}⟩, .invocation ⟨word, [], {}⟩]⟩
    (calling "c").resolve.tree = calling "b" ∧ (calling "b").resolve.tree = calling "a" :=
  ⟨rfl, rfl⟩

end Program

end CheckedScript
