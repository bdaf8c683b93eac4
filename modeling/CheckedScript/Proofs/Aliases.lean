import CheckedScript.Proofs.Compilation

/-!
Aliases leave no trace in a script. Another word for an alias, put in place of the old one where
it is declared and where it is used, leads every lookup to the same import, so that the commands
are renamed to the same names and the helper functions stay clear of them.

Main results:
* `Import.target?_realiased`: lookups with the new word end at the same names.
* `Program.toScript_of_realiased`: the script is the same.

The new word must mean nothing yet: it is no import, no alias and no function.
-/

namespace CheckedScript

open Script

/-! ## Trees with other imports -/

namespace Node

mutual

/-- The tree with every import changed by `f`. -/
def mapImports (f : Import → Import) : Node → Node
  | root children => root (mapImportsAmong f children)
  | importing declaration => importing (f declaration)
  | function signature body => function signature (mapImportsAmong f body)
  | param declaration => param declaration
  | invocation command => invocation command
  | expression command => expression command
  | comment text => comment text

def mapImportsAmong (f : Import → Import) : List Node → List Node
  | [] => []
  | node :: rest => node.mapImports f :: mapImportsAmong f rest

end

theorem mapImportsAmong_eq (f : Import → Import) (nodes : List Node) :
    mapImportsAmong f nodes = nodes.map (mapImports f) := by
  induction nodes with
  | nil => rfl
  | cons node rest ih => rw [mapImportsAmong, ih, List.map_cons]

theorem mapImports_root (f : Import → Import) (children : List Node) :
    (root children).mapImports f = root (children.map (mapImports f)) :=
  congrArg root (mapImportsAmong_eq f children)

theorem mapImports_function (f : Import → Import) (signature : Signature) (body : List Node) :
    (function signature body).mapImports f = function signature (body.map (mapImports f)) :=
  congrArg (function signature) (mapImportsAmong_eq f body)

theorem imports_mapImports (f : Import → Import) (node : Node) :
    (node.mapImports f).imports = node.imports.map f := by
  induction node with
  | root children ih =>
    rw [mapImports_root, imports_root, imports_root, List.flatMap_map, List.map_flatMap]
    exact List.flatMap_congr ih
  | function signature body ih =>
    rw [mapImports_function, imports_function, imports_function, List.flatMap_map,
      List.map_flatMap]
    exact List.flatMap_congr ih
  | importing | param | invocation | expression | comment => rfl

theorem commands_mapImports (f : Import → Import) (node : Node) :
    (node.mapImports f).commands = node.commands := by
  induction node with
  | root children ih =>
    rw [mapImports_root, commands_root, commands_root, List.flatMap_map]
    exact List.flatMap_congr ih
  | function signature body ih =>
    rw [mapImports_function, commands_function, commands_function, List.flatMap_map]
    exact List.flatMap_congr ih
  | importing | param | invocation | expression | comment => rfl

theorem mapCommands_mapImports (f : Import → Import) (g : Command → Command) (node : Node) :
    (node.mapImports f).mapCommands g = (node.mapCommands g).mapImports f := by
  induction node with
  | root children ih =>
    rw [mapImports_root, mapCommands_root, mapCommands_root, mapImports_root, List.map_map,
      List.map_map]
    exact congrArg root (List.map_congr_left ih)
  | function signature body ih =>
    rw [mapImports_function, mapCommands_function, mapCommands_function, mapImports_function,
      List.map_map, List.map_map]
    exact congrArg (function signature) (List.map_congr_left ih)
  | importing | param | invocation | expression | comment => rfl

/-- Imports have no lines, whatever they are. -/
theorem lines_mapImports (f : Import → Import) (level : Nat) (node : Node) :
    (node.mapImports f).lines level = node.lines level := by
  induction node generalizing level with
  | root children ih =>
    rw [mapImports_root, lines, lines, linesAmong_eq, linesAmong_eq, List.flatMap_map]
    exact List.flatMap_congr fun node hnode => ih node hnode level
  | function signature body ih =>
    rw [mapImports_function, lines, lines, linesAmong_eq, linesAmong_eq, List.flatMap_map]
    exact congrArg (enclose level signature)
      (List.flatMap_congr fun node hnode => ih node hnode (level + 1))
  | importing | param | invocation | expression | comment => rfl

theorem isOuter_mapImports (f : Import → Import) {node : Node} (h : node.isOuter = true) :
    (node.mapImports f).isOuter = true := by
  cases node with
  | importing | comment => rfl
  | function signature body =>
    rw [mapImports_function, isOuter, List.all_map]
    refine List.all_eq_true.mpr fun inner hinner => ?_
    have hkind := List.all_eq_true.mp h inner hinner
    cases inner with
    | invocation | comment => rfl
    | _ => cases hkind
  | _ => cases h

theorem mainBody?_mapImports (f : Import → Import) (node : Node) :
    (node.mapImports f).mainBody? = node.mainBody?.map (List.map (mapImports f)) := by
  cases node with
  | function signature body =>
    rw [mapImports_function, mainBody?, mainBody?]
    split <;> rfl
  | _ => rfl

end Node

namespace Program

def mapImports (f : Import → Import) (program : Program) : Program :=
  ⟨program.children.map (Node.mapImports f)⟩

theorem imports_mapImports (f : Import → Import) (program : Program) :
    (program.mapImports f).imports = program.imports.map f := by
  rw [imports, imports, mapImports, Node.importsAmong_eq, Node.importsAmong_eq, List.flatMap_map,
    List.map_flatMap]
  exact List.flatMap_congr fun node _ => node.imports_mapImports f

theorem commands_mapImports (f : Import → Import) (program : Program) :
    (program.mapImports f).commands = program.commands := by
  rw [commands_eq, commands_eq, mapImports, List.flatMap_map]
  exact List.flatMap_congr fun node _ => node.commands_mapImports f

theorem functionNames_mapImports (f : Import → Import) (program : Program) :
    (program.mapImports f).functionNames = program.functionNames := by
  rw [functionNames, functionNames, mapImports, List.filterMap_map]
  congr 1
  funext node
  cases node <;> rfl

theorem mapCommands_mapImports (f : Import → Import) (g : Command → Command) (program : Program) :
    (program.mapImports f).mapCommands g = (program.mapCommands g).mapImports f := by
  rw [mapCommands, mapCommands, mapImports, mapImports, List.map_map, List.map_map]
  exact congrArg mk (List.map_congr_left fun node _ => node.mapCommands_mapImports f g)

theorem Flat.mapImports {program : Program} (h : program.Flat) (f : Import → Import) :
    (program.mapImports f).Flat := by
  intro node hnode
  obtain ⟨original, horiginal, rfl⟩ := List.mem_map.mp hnode
  exact Node.isOuter_mapImports f (h original horiginal)

theorem sectionsAmong_mapImports (f : Import → Import) (nodes : List Node) :
    sectionsAmong (nodes.map (Node.mapImports f)) = sectionsAmong nodes := by
  have hfilter : (nodes.map (Node.mapImports f)).filter (·.mainBody?.isNone) =
      (nodes.filter (·.mainBody?.isNone)).map (Node.mapImports f) := by
    rw [List.filter_map]
    congr 2
    funext node
    rw [Function.comp_apply, Node.mainBody?_mapImports, Option.isNone_map]
  rw [sectionsAmong, sectionsAmong, hfilter, List.map_map]
  congr 2
  funext node
  exact node.lines_mapImports f 0

theorem code_mapImports (f : Import → Import) (program : Program) :
    (program.mapImports f).code = program.code := by
  have hmain : (program.mapImports f).mainBody? =
      program.mainBody?.map (List.map (Node.mapImports f)) := by
    rw [mainBody?, mainBody?, mapImports, List.findSome?_map, List.map_findSome?]
    congr 1
    funext node
    exact node.mainBody?_mapImports f
  have hcode : ∀ body? : Option (List Node),
      mainCode (body?.map (List.map (Node.mapImports f))) = mainCode body? := by
    rintro (_ | body)
    · rfl
    · rw [Option.map_some, mainCode, mainCode, Node.linesAmong_eq, Node.linesAmong_eq,
        List.flatMap_map]
      simp only [Node.lines_mapImports]
  rw [code, code, hmain, hcode, mapImports, sectionsAmong_mapImports]

theorem mapCommands_mapCommands (f g : Command → Command) (program : Program) :
    (program.mapCommands g).mapCommands f = program.mapCommands (f ∘ g) := by
  refine eq_of_shape_of_commands ?_ ?_
  · rw [shape_mapCommands, shape_mapCommands, shape_mapCommands]
  · rw [commands_mapCommands, commands_mapCommands, commands_mapCommands, List.map_map]

theorem mapCommands_congr {f g : Command → Command} {program : Program}
    (h : ∀ command ∈ program.commands, f command = g command) :
    program.mapCommands f = program.mapCommands g := by
  refine eq_of_shape_of_commands ?_ ?_
  · rw [shape_mapCommands, shape_mapCommands]
  · rw [commands_mapCommands, commands_mapCommands]
    exact List.map_congr_left h

end Program

/-! ## Another word for an alias -/

/-- The word that stands for `name` when `b` takes the place of `a`. -/
def replaced (a b name : String) : String := if name = a then b else name

theorem replaced_of_ne {a b name : String} (h : name ≠ a) : replaced a b name = name := if_neg h

/-- Words other than the new one stay different from each other. -/
theorem replaced_eq_iff {a b name other : String} (h : name ≠ b) (h' : other ≠ b) :
    replaced a b name = replaced a b other ↔ name = other := by
  unfold replaced
  split
  case isTrue hname =>
    split
    case isTrue hother => simp [hname, hother]
    case isFalse hother => simp [hname, Ne.symm h', Ne.symm hother]
  case isFalse hname =>
    split
    case isTrue hother => simp [hother, h, hname]
    case isFalse => rfl

def Import.realiased (a b : String) (declaration : Import) : Import :=
  { declaration with aliasName := declaration.aliasName.map (replaced a b) }

def Command.realiased (a b : String) (command : Command) : Command :=
  { command with name := replaced a b command.name }

/-- The program with `b` in place of `a` in every alias and every command. -/
def Program.realiased (a b : String) (program : Program) : Program :=
  (program.mapImports (Import.realiased a b)).mapCommands (Command.realiased a b)

namespace Import

theorem exists_mem_of_target? {imports : List Import} {command : String}
    (h : (target? imports command).isSome) :
    ∃ declaration ∈ imports, declaration.name = command ∨ declaration.aliasName = some command := by
  rw [target?, Option.isSome_map, List.find?_isSome] at h
  simpa using h

/-- An import answers to the new word if it answered to the old one, and to all others as it
did. -/
theorem answers_realiased_iff {declaration : Import} {a b command : String}
    (ha : declaration.name ≠ a) (hname : declaration.name ≠ b)
    (halias : declaration.aliasName ≠ some b) (hcommand : command ≠ b) :
    ((realiased a b declaration).name = replaced a b command ∨
      (realiased a b declaration).aliasName = some (replaced a b command)) ↔
    (declaration.name = command ∨ declaration.aliasName = some command) := by
  have hbyName : (realiased a b declaration).name = replaced a b command ↔
      declaration.name = command := by
    rw [← replaced_eq_iff (a := a) hname hcommand, replaced_of_ne ha]
    rfl
  have hbyAlias : (realiased a b declaration).aliasName = some (replaced a b command) ↔
      declaration.aliasName = some command := by
    show declaration.aliasName.map (replaced a b) = some (replaced a b command) ↔ _
    cases hother : declaration.aliasName with
    | none => simp
    | some other =>
      rw [hother, ne_eq, Option.some_inj] at halias
      rw [Option.map_some, Option.some_inj, Option.some_inj, replaced_eq_iff halias hcommand]
  rw [hbyName, hbyAlias]

/-- Lookups with the new word in place end at the same names. -/
theorem target?_realiased {imports : List Import} {a b : String}
    (ha : ∀ declaration ∈ imports, declaration.name ≠ a)
    (hb : ∀ declaration ∈ imports, declaration.name ≠ b ∧ declaration.aliasName ≠ some b)
    {command : String} (hcommand : command ≠ b) :
    target? (imports.map (realiased a b)) (replaced a b command) = target? imports command := by
  induction imports with
  | nil => rfl
  | cons declaration imports ih =>
    obtain ⟨hfirst, ha⟩ := List.forall_mem_cons.mp ha
    obtain ⟨⟨hname, halias⟩, hb⟩ := List.forall_mem_cons.mp hb
    have hsame := answers_realiased_iff hfirst hname halias hcommand
    have hrest := ih ha hb
    rw [target?, target?] at hrest
    rw [target?, target?, List.map_cons, List.find?_cons, List.find?_cons,
      decide_eq_decide.mpr hsame]
    cases decide (declaration.name = command ∨ declaration.aliasName = some command) with
    | true => rfl
    | false => exact hrest

end Import

namespace Program

variable {program : Program} {options : Options} {a b : String}

theorem imports_realiased (program : Program) (a b : String) :
    (program.realiased a b).imports = program.imports.map (Import.realiased a b) := by
  rw [realiased, imports_mapCommands, imports_mapImports]

theorem commands_realiased (program : Program) (a b : String) :
    (program.realiased a b).commands = program.commands.map (Command.realiased a b) := by
  rw [realiased, commands_mapCommands, commands_mapImports]

theorem functionNames_realiased (program : Program) (a b : String) :
    (program.realiased a b).functionNames = program.functionNames := by
  rw [realiased, functionNames_mapCommands, functionNames_mapImports]

/-- Which imports are guarded is decided by their names. -/
theorem importedOnly_realiased (implicit : List String) (imports : List Import) (a b : String) :
    importedOnly implicit (imports.map (Import.realiased a b)) = importedOnly implicit imports := by
  rw [importedOnly, importedOnly, List.map_map]
  rfl

/-- A command that is imported is called something else than the new word. -/
theorem ne_of_imported
    (hb : ∀ declaration ∈ program.imports, declaration.name ≠ b ∧ declaration.aliasName ≠ some b)
    {command : Command} (h : (Import.target? program.imports command.name).isSome) :
    command.name ≠ b := by
  obtain ⟨declaration, hmem, hname | halias⟩ := Import.exists_mem_of_target? h
  · rw [← hname]
    exact (hb declaration hmem).1
  · rintro rfl
    exact (hb declaration hmem).2 halias

theorem Compilable.realiased (h : program.Compilable options)
    (ha : ∀ declaration ∈ program.imports, declaration.name ≠ a)
    (hb : ∀ declaration ∈ program.imports, declaration.name ≠ b ∧ declaration.aliasName ≠ some b)
    (hfunctions : b ∉ program.functionNames) : (program.realiased a b).Compilable options := by
  have hhelpers : (program.realiased a b).helperNames = program.helperNames := by
    rw [helperNames, helperNames, functionNames_realiased]
  obtain ⟨himported, hstatuses, hmain, hdistinct, himplicit, hfree⟩ := h
  refine ⟨fun command hcommand => ?_, ?_, ?_, ?_, ?_, ?_⟩
  · rw [commands_realiased] at hcommand
    obtain ⟨original, horiginal, rfl⟩ := List.mem_map.mp hcommand
    have hsome := himported original horiginal
    rw [imports_realiased, Command.realiased, Import.target?_realiased ha hb
      (ne_of_imported hb hsome)]
    exact hsome
  · rwa [imports_realiased, importedOnly_realiased]
  · rwa [functionNames_realiased]
  · rwa [hhelpers]
  · rwa [hhelpers]
  · -- The new word is no helper function's name, and the other aliases were clear of them before.
    rw [hhelpers, imports_realiased]
    intro name hname declaration hdeclaration
    obtain ⟨original, horiginal, rfl⟩ := List.mem_map.mp hdeclaration
    obtain ⟨hother, halias⟩ := hfree name hname original horiginal
    refine ⟨hother, fun heq => ?_⟩
    obtain ⟨word, hword, hreplaced⟩ := Option.map_eq_some_iff.mp heq
    unfold replaced at hreplaced
    split at hreplaced
    · exact hfunctions (hreplaced ▸ (List.mem_filter.mp hname).1)
    · exact halias (hreplaced ▸ hword)

theorem script_realiased
    (himported : ∀ command ∈ program.commands,
      (Import.target? program.imports command.name).isSome)
    (ha : ∀ declaration ∈ program.imports, declaration.name ≠ a)
    (hb : ∀ declaration ∈ program.imports, declaration.name ≠ b ∧ declaration.aliasName ≠ some b) :
    (program.realiased a b).script options = program.script options := by
  have hchecks : checkSections options (program.imports.map (Import.realiased a b)) =
      checkSections options program.imports := by
    rw [checkSections, checkSections, guards, guards, importedOnly_realiased]
  have hrenamed : ∀ command ∈ program.commands,
      (Command.renamed (program.imports.map (Import.realiased a b)) ∘ Command.realiased a b)
        command = Command.renamed program.imports command := by
    intro command hcommand
    obtain ⟨name, hname⟩ := Option.isSome_iff_exists.mp (himported command hcommand)
    have htarget := Import.target?_realiased ha hb (ne_of_imported hb (himported command hcommand))
    rw [Function.comp_apply, Command.renamed, Command.renamed, Command.realiased, htarget, hname]
    rfl
  rw [script, script, imports_realiased, hchecks, realiased, mapCommands_mapCommands,
    mapCommands_mapImports, code_mapImports, mapCommands_congr hrenamed]

/-- Another word for an alias, one that means nothing yet, makes the same script. -/
theorem toScript_of_realiased (hflat : program.Flat) {valid : String → Bool} {text : String}
    (htext : (program.toScript valid options).result = .ok text)
    (ha : ∀ declaration ∈ program.imports, declaration.name ≠ a)
    (hb : ∀ declaration ∈ program.imports, declaration.name ≠ b ∧ declaration.aliasName ≠ some b)
    (hfunctions : b ∉ program.functionNames) :
    ((program.realiased a b).toScript valid options).result = .ok text := by
  obtain ⟨hcompilable, hjudged⟩ := (result_toScript_eq_ok_iff hflat).mp htext
  have hflat' : (program.realiased a b).Flat := (hflat.mapImports _).mapCommands _
  refine (result_toScript_eq_ok_iff hflat').mpr ⟨hcompilable.realiased ha hb hfunctions, ?_⟩
  rw [script_realiased hcompilable.imported ha hb, hjudged]

/-- Two imports share an alias, and the first of them is implicit. -/
theorem toScript_of_realiased_shared_alias :
    let shared (word : String) : Program := ⟨[.importing ⟨"x", some word, {}⟩,
      .importing ⟨"y", some word, {}⟩, .function ⟨"f", [], none, {}⟩ [.invocation ⟨word, [], {}⟩],
      .function ⟨"main", [], none, {}⟩ [.invocation ⟨"y", ["p"], {}⟩]]⟩
    (shared "p").Flat ∧ (shared "p").realiased "p" "q" = shared "q" ∧
      ((shared "q").toScript (fun _ => true) ⟨"", "", ["x"], 7, false⟩).result =
      .ok ("# check for x by default\nif [[ -z \"$( which x )\" ]]; then\nexit 7\nfi\n\n"
        ++ "if [[ -z \"$( which y )\" ]]; then\n"
        ++ "echo \"imported command y could not be found\"\nexit 8\nfi\n\n"
        ++ "f() \x7b\nx\n\x7d\n\n# main code\ny \"p\"\n") := by
  intro shared
  have hflat : (shared "p").Flat := by
    simp [Flat, shared, Node.isOuter, Node.isInner]
  have hrealiased : (shared "p").realiased "p" "q" = shared "q" := by rfl
  refine ⟨hflat, hrealiased, ?_⟩
  rw [← hrealiased]
  exact toScript_of_realiased hflat rfl (by decide) (by decide) (by decide)

end Program

end CheckedScript
