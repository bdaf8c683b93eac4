import CheckedScript.Proofs.Compilation

/-!
Imports, comments and functions may be interleaved in any order. The stages that follow parsing
read the top level several times over, once for each sort of node, so only the order of the
imports and the order of the helper functions matter: a program that keeps both has the same
script, or fails with an error of the same kind.

Main result:
* `Program.toScript_of_interleaving`: the same script, or an error of the same kind.

Errors need not be equal: which of two faults is met first may depend on the order.
-/

namespace CheckedScript

open Script

namespace Node

theorem imports_of_isInner {node : Node} (h : node.isInner = true) : node.imports = [] := by
  cases node with
  | invocation | comment => rfl
  | _ => cases h

theorem imports_of_isOuter {node : Node} (h : node.isOuter = true) :
    node.imports = node.import?.toList := by
  cases node with
  | importing | comment => rfl
  | function signature body =>
    rw [imports_function]
    exact List.flatMap_eq_nil_iff.mpr fun inner hinner =>
      imports_of_isInner (List.all_eq_true.mp h inner hinner)
  | _ => cases h

/-- Of what stands at top level beside `main`, the helper functions have lines. -/
theorem lines_isEmpty_of_isOuter {node : Node} (h : node.isOuter = true)
    (hmain : node.mainBody? = none) : (node.lines 0).isEmpty = !node.helperName?.isSome := by
  cases node with
  | importing | comment => rfl
  | function signature body =>
    have hname : signature.name ≠ "main" := fun hname => by simp [mainBody?, hname] at hmain
    simp [helperName?, hname, lines, enclose]
  | _ => cases h

theorem import?_mapCommands (f : Command → Command) (node : Node) :
    (node.mapCommands f).import? = node.import? := by
  cases node <;> rfl

theorem helperName?_mapCommands (f : Command → Command) (node : Node) :
    (node.mapCommands f).helperName? = node.helperName? := by
  cases node <;> rfl

end Node

/-- What a function finds in a list, it finds in the elements where there is something to find. -/
theorem filterMap_filter_isSome {α β : Type} (f : α → Option β) (xs : List α) :
    (xs.filter fun x => (f x).isSome).filterMap f = xs.filterMap f := by
  rw [List.filterMap_filter]
  congr 1
  funext x
  cases f x <;> rfl

namespace Program

theorem Flat.imports_eq {program : Program} (h : program.Flat) :
    program.imports = program.children.filterMap Node.import? := by
  rw [imports, Node.importsAmong_eq, List.filterMap_eq_flatMap_toList]
  exact List.flatMap_congr fun node hnode => Node.imports_of_isOuter (h node hnode)

/-- The sections in front of `main` are those of the helper functions. -/
theorem sectionsAmong_eq {nodes : List Node} (h : ∀ node ∈ nodes, node.isOuter = true) :
    sectionsAmong nodes = (nodes.filter (·.helperName?.isSome)).map (Node.lines 0) := by
  induction nodes with
  | nil => rfl
  | cons node nodes ih =>
    obtain ⟨hnode, hnodes⟩ := List.forall_mem_cons.mp h
    by_cases hmain : node.mainBody? = none
    · rw [sectionsAmong_cons hmain, ih hnodes, Node.lines_isEmpty_of_isOuter hnode hmain,
        List.filter_cons]
      cases node.helperName?.isSome <;> rfl
    · rw [sectionsAmong_cons_of_main hmain, ih hnodes, List.filter_cons,
        Node.helperName?_of_main hmain]
      rfl

/-! ## Rearranged programs -/

/-- The same nodes at top level, in an order that keeps the imports and the helper functions
each in their order. -/
structure Rearranged (program other : Program) : Prop where
  perm : other.children.Perm program.children
  imports : other.children.filter (·.import?.isSome) = program.children.filter (·.import?.isSome)
  helpers : other.children.filter (·.helperName?.isSome) =
    program.children.filter (·.helperName?.isSome)

namespace Rearranged

variable {program other : Program} {options : Options}

theorem flat (h : program.Rearranged other) (hflat : program.Flat) : other.Flat :=
  fun node hnode => hflat node (h.perm.mem_iff.mp hnode)

theorem mapCommands (h : program.Rearranged other) (f : Command → Command) :
    (program.mapCommands f).Rearranged (other.mapCommands f) := by
  have hfilter : ∀ (p : Node → Bool), (∀ node, p (node.mapCommands f) = p node) →
      ∀ nodes : List Node, (nodes.map (Node.mapCommands f)).filter p =
        (nodes.filter p).map (Node.mapCommands f) := by
    intro p hp nodes
    rw [List.filter_map]
    congr 2
    funext node
    exact hp node
  refine ⟨h.perm.map _, ?_, ?_⟩
  · have hp : ∀ node : Node, (node.mapCommands f).import?.isSome = node.import?.isSome :=
      fun node => by rw [Node.import?_mapCommands]
    show (other.children.map _).filter _ = (program.children.map _).filter _
    rw [hfilter _ hp, hfilter _ hp, h.imports]
  · have hp : ∀ node : Node, (node.mapCommands f).helperName?.isSome = node.helperName?.isSome :=
      fun node => by rw [Node.helperName?_mapCommands]
    show (other.children.map _).filter _ = (program.children.map _).filter _
    rw [hfilter _ hp, hfilter _ hp, h.helpers]

theorem imports_eq (h : program.Rearranged other) (hflat : program.Flat) :
    other.imports = program.imports := by
  rw [(h.flat hflat).imports_eq, hflat.imports_eq, ← filterMap_filter_isSome,
    ← filterMap_filter_isSome _ program.children, h.imports]

theorem helperNames_eq (h : program.Rearranged other) :
    other.helperNames = program.helperNames := by
  rw [Program.helperNames_eq, Program.helperNames_eq, ← filterMap_filter_isSome,
    ← filterMap_filter_isSome _ program.children, h.helpers]

theorem count_main_eq (h : program.Rearranged other) :
    other.functionNames.count "main" = program.functionNames.count "main" :=
  (h.perm.filterMap _).count_eq "main"

theorem mem_commands_iff (h : program.Rearranged other) {command : Command} :
    command ∈ other.commands ↔ command ∈ program.commands := by
  rw [commands_eq, commands_eq]
  exact (h.perm.flatMap_right _).mem_iff

/-- There is one `main` at most, so that it makes no difference where it stands. -/
theorem mainBody?_eq (h : program.Rearranged other)
    (hmain : program.functionNames.count "main" ≤ 1) : other.mainBody? = program.mainBody? := by
  rw [Program.count_main_eq] at hmain
  have hperm : (other.children.filterMap Node.mainBody?).Perm
      (program.children.filterMap Node.mainBody?) := h.perm.filterMap _
  rw [mainBody?, mainBody?, ← List.head?_filterMap, ← List.head?_filterMap]
  generalize program.children.filterMap Node.mainBody? = bodies at hmain hperm ⊢
  rcases bodies with _ | ⟨body, _ | ⟨second, rest⟩⟩
  · rw [hperm.eq_nil]
  · rw [List.perm_singleton.mp hperm]
  · simp at hmain

theorem code_eq (h : program.Rearranged other) (hflat : program.Flat)
    (hmain : program.functionNames.count "main" ≤ 1) : other.code = program.code := by
  rw [code, code, sectionsAmong_eq (h.flat hflat), sectionsAmong_eq hflat, h.helpers,
    h.mainBody?_eq hmain]

theorem symm (h : program.Rearranged other) : other.Rearranged program :=
  ⟨h.perm.symm, h.imports.symm, h.helpers.symm⟩

theorem compilable (h : program.Rearranged other) (hflat : program.Flat)
    (hcompilable : program.Compilable options) : other.Compilable options := by
  have himports := h.imports_eq hflat
  have hhelpers := h.helperNames_eq
  obtain ⟨himported, hstatuses, hmain, hdistinct, himplicit, hfree⟩ := hcompilable
  refine ⟨fun command hcommand => ?_, ?_, ?_, ?_, ?_, ?_⟩
  · rw [himports]
    exact himported command (h.mem_commands_iff.mp hcommand)
  · rwa [himports]
  · rwa [h.count_main_eq]
  · rwa [hhelpers]
  · rwa [hhelpers]
  · rwa [hhelpers, himports]

theorem script_eq (h : program.Rearranged other) (hflat : program.Flat)
    (hmain : program.functionNames.count "main" ≤ 1) :
    other.script options = program.script options := by
  rw [← program.functionNames_mapCommands (Command.renamed program.imports)] at hmain
  rw [script, script, h.imports_eq hflat, (h.mapCommands _).code_eq (hflat.mapCommands _) hmain]

theorem toScript_eq_ok (h : program.Rearranged other) (hflat : program.Flat)
    {valid : String → Bool} {text : String}
    (htext : (program.toScript valid options).result = .ok text) :
    (other.toScript valid options).result = .ok text := by
  obtain ⟨hcompilable, hjudged⟩ := (result_toScript_eq_ok_iff hflat).mp htext
  refine (result_toScript_eq_ok_iff (h.flat hflat)).mpr ⟨h.compilable hflat hcompilable, ?_⟩
  rw [h.script_eq hflat hcompilable.names.main, hjudged]

end Rearranged

/-- Programs that differ in the interleaving of their nodes have the same script, or errors of the
same kind. -/
theorem toScript_of_interleaving {program other : Program} (hflat : program.Flat)
    (h : program.Rearranged other) (valid : String → Bool) (options : Options) :
    (other.toScript valid options).result.mapError CompileError.kind =
      (program.toScript valid options).result.mapError CompileError.kind := by
  cases hprogram : (program.toScript valid options).result with
  | ok text => rw [h.toScript_eq_ok hflat hprogram]
  | error e =>
    cases hother : (other.toScript valid options).result with
    | ok text =>
      rw [h.symm.toScript_eq_ok (h.flat hflat) hother] at hprogram
      cases hprogram
    | error e' =>
      -- Which stage fails is decided by the commands that no import provides.
      have hkind := kind_of_toScript hflat hprogram
      have hkind' := kind_of_toScript (h.flat hflat) hother
      simp only [h.imports_eq hflat, h.mem_commands_iff] at hkind'
      rw [Except.mapError, Except.mapError, hkind, hkind']

/-- An import behind the function that uses its alias, and a helper function in front of `main`
or behind it. -/
theorem toScript_of_interleaving_reversed :
    let listed : Node := .importing ⟨"ls", some "l", {}⟩
    let main : Node := .function ⟨"main", [], none, {}⟩ [.invocation ⟨"l", ["-a"], {}⟩]
    let helper : Node := .function ⟨"f", [], none, {}⟩ [.comment "idle"]
    let options : Options := ⟨"", "", [], 7, false⟩
    Flat ⟨[listed, main, helper]⟩ ∧ Rearranged ⟨[listed, main, helper]⟩ ⟨[helper, main, listed]⟩ ∧
      (toScript (fun _ => true) options ⟨[helper, main, listed]⟩).result.mapError
        CompileError.kind =
      .ok ("if [[ -z \"$( which ls )\" ]]; then\n"
        ++ "echo \"imported command ls could not be found\"\nexit 7\nfi\n\n"
        ++ "f() \x7b\n:\n\x7d\n\n# main code\nls \"-a\"\n") := by
  intro listed main helper options
  have hflat : Flat ⟨[listed, main, helper]⟩ := by
    simp [Flat, listed, main, helper, Node.isOuter, Node.isInner]
  have hrearranged : Rearranged ⟨[listed, main, helper]⟩ ⟨[helper, main, listed]⟩ :=
    ⟨List.reverse_perm [listed, main, helper], rfl, rfl⟩
  refine ⟨hflat, hrearranged, ?_⟩
  rw [toScript_of_interleaving hflat hrearranged]
  decide +kernel

end Program

end CheckedScript
