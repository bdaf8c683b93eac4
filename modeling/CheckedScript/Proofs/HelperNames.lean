import CheckedScript.Proofs.Checks
import CheckedScript.Proofs.WellFormed

/-!
Which programs have a script. The programs that come from a source hold nothing that cannot be
written, so generation fails only if the statuses run out, `main` stands twice or the name of a
helper function is taken. In a script, then, no helper hides a command that is run or checked for.

Main results:
* `Script.outline_isOk_iff`: which top levels can be read.
* `Script.cases_of_generateBy`: how generation fails.
* `Compiler.script_exists_iff_names_free`: which programs have a script, and that no helper hides a
  command in it.
-/

namespace CheckedScript

open Script

/-! ## Nodes that can be written -/

namespace Node

/-- Whether a script can hold what the node stands for. -/
def isWritable : Node → Bool
  | param _ => false
  | root _ => false
  | _ => true

/-- Whether a function body from a source can hold the node. -/
def isInner : Node → Bool
  | invocation _ => true
  | comment _ => true
  | _ => false

/-- Whether the top level of a source can hold the node. -/
def isOuter : Node → Bool
  | importing _ => true
  | comment _ => true
  | function _ body => body.all isInner
  | _ => false

theorem isInner_of_inBody {node : Node} (h : node.InBody) : node.isInner = true := by
  cases h <;> rfl

theorem isOuter_of_atTopLevel {node : Node} (h : node.AtTopLevel) : node.isOuter = true := by
  cases h with
  | importing | comment => rfl
  | function _ _ hbody =>
    exact List.all_eq_true.mpr fun node hmem => isInner_of_inBody (hbody node hmem)

theorem isInner_mapCommands (f : Command → Command) (node : Node) :
    (node.mapCommands f).isInner = node.isInner := by
  cases node <;> rfl

theorem isOuter_mapCommands (f : Command → Command) (node : Node) :
    (node.mapCommands f).isOuter = node.isOuter := by
  cases node with
  | function signature body =>
    rw [mapCommands_function, isOuter, isOuter, List.all_map]
    congr 1
    funext node
    exact isInner_mapCommands f node
  | _ => rfl

theorem nodes_of_isInner {node : Node} (h : node.isInner = true) : node.nodes = [node] := by
  cases node with
  | invocation | comment => rfl
  | _ => cases h

theorem isWritable_of_isInner {node : Node} (h : node.isInner = true) : node.isWritable = true := by
  cases node with
  | invocation | comment => rfl
  | _ => cases h

/-- All that is below a node of the top level, and the node itself, can be written. -/
theorem isWritable_of_isOuter {node : Node} (h : node.isOuter = true) :
    ∀ below ∈ node.nodes, below.isWritable = true := by
  cases node with
  | importing | comment => simp [nodes, isWritable]
  | function signature body =>
    rw [nodes, nodesAmong_eq]
    refine List.forall_mem_cons.mpr ⟨rfl, fun below hbelow => ?_⟩
    obtain ⟨inner, hinner, hmem⟩ := List.mem_flatMap.mp hbelow
    have hkind := List.all_eq_true.mp h inner hinner
    rw [nodes_of_isInner hkind, List.mem_singleton] at hmem
    rw [hmem]
    exact isWritable_of_isInner hkind
  | _ => cases h

end Node

namespace Script

variable {indent : String}

theorem emitAll_isOk {level : Nat} {nodes : List Node}
    (h : ∀ node ∈ nodes, ∃ lines, emit indent level node = .ok lines) :
    ∃ lines, emitAll indent level nodes = .ok lines := by
  induction nodes with
  | nil => exact ⟨[], rfl⟩
  | cons node nodes ih =>
    obtain ⟨hfirst, hrest⟩ := List.forall_mem_cons.mp h
    obtain ⟨lines, hlines⟩ := hfirst
    obtain ⟨others, hothers⟩ := ih hrest
    refine ⟨lines ++ others, ?_⟩
    rw [emitAll, within_eq_ok_iff.mpr hlines, hothers]
    rfl

/-- A node has lines if it can be written together with all that is below it. -/
theorem emit_isOk {node : Node} (h : ∀ below ∈ node.nodes, below.isWritable = true) (level : Nat) :
    ∃ lines, emit indent level node = .ok lines := by
  induction node generalizing level with
  | root | param => cases h _ (List.mem_cons_self ..)
  | importing | comment | invocation | expression => exact ⟨_, rfl⟩
  | function signature body ih =>
    rw [Node.nodes, Node.nodesAmong_eq] at h
    obtain ⟨lines, hlines⟩ := @emitAll_isOk indent (level + 1) body fun node hnode =>
      ih node hnode (fun below hbelow => h below
        (List.mem_cons_of_mem _ (List.mem_flatMap.mpr ⟨node, hnode, hbelow⟩))) (level + 1)
    exact ⟨functionLines indent level signature lines, by rw [emit, hlines]; rfl⟩

theorem emitOutermost_isOk {node : Node}
    (h : ∀ below ∈ node.nodes, below.isWritable = true) :
    ∃ lines, emitOutermost indent node = .ok lines := by
  obtain ⟨lines, hlines⟩ := emit_isOk h 0
  exact ⟨lines, within_eq_ok_iff.mpr hlines⟩

end Script

/-! ## Reading the top level -/

theorem Import.lookup_eq_none_iff {imports : List Import} {name : String} :
    lookup imports name = none ↔ ∀ declaration ∈ imports,
      declaration.name ≠ name ∧ declaration.aliasName ≠ some name := by
  have hprovides : ∀ declaration : Import, declaration.provides name = none ↔
      declaration.name ≠ name ∧ declaration.aliasName ≠ some name := by
    intro declaration
    rw [provides]
    split
    case isTrue h => simp [h]
    case isFalse h => simp [h]
  rw [lookup, List.findSome?_eq_none_iff]
  simp only [hprovides]

namespace Script

theorem clash?_eq_none_iff {implicit : List String} {imports : List Import}
    {helpers : List String} {name : String} :
    clash? implicit imports helpers name = none ↔
      name ∉ helpers ∧ name ∉ implicit ∧ Import.lookup imports name = none := by
  rw [clash?]
  by_cases hhelper : name ∈ helpers
  · simp [hhelper]
  · by_cases himplicit : name ∈ implicit
    · simp [hhelper, himplicit]
    · cases Import.lookup imports name with
      | none => simp [hhelper, himplicit]
      | some resolution => cases resolution <;> simp [hhelper, himplicit]

theorem clash?_append_eq_none_iff {implicit : List String} {imports : List Import}
    {helpers : List String} {helper name : String} :
    clash? implicit imports (helpers ++ [helper]) name = none ↔
      name ≠ helper ∧ clash? implicit imports helpers name = none := by
  rw [clash?_eq_none_iff, clash?_eq_none_iff, List.mem_append, List.mem_singleton, not_or,
    and_comm (a := name ∉ helpers), and_assoc]

end Script

/-- The name of a function other than `main`. -/
def Node.helperName? : Node → Option String
  | function signature _ => if signature.name = "main" then none else some signature.name
  | _ => none

theorem Node.helperName?_eq_none {node : Node}
    (h : ∀ signature body, node = function signature body → False) : node.helperName? = none := by
  cases node with
  | function signature body => exact (h signature body rfl).elim
  | _ => rfl

theorem Node.helperName?_of_main {node : Node} (h : node.mainBody? ≠ none) :
    node.helperName? = none := by
  cases node with
  | function signature body =>
    by_cases hname : signature.name = "main"
    · exact if_pos hname
    · exact absurd (if_neg hname) h
  | _ => rfl

namespace Script

variable {options : Options} {imports : List Import}

/-- The top level can be read exactly if there is one `main` at most and no helper function has a
name that is taken, by an earlier one or by a command. -/
theorem outline_isOk_iff {helpers : List String} {main : Option (List Node)} {nodes : List Node}
    (hnodes : ∀ node ∈ nodes, ∀ below ∈ node.nodes, below.isWritable = true) :
    (∃ top, outline options imports helpers main nodes = .ok top) ↔
      (main.toList ++ nodes.filterMap Node.mainBody?).length ≤ 1 ∧
      (nodes.filterMap Node.helperName?).Nodup ∧
      ∀ name ∈ nodes.filterMap Node.helperName?,
        clash? options.implicit imports helpers name = none := by
  fun_induction outline options imports helpers main nodes with
  | case1 helpers main => cases main <;> simp
  | case2 helpers main signature body nodes hname hmain =>
    have hbody : (Node.function signature body).mainBody? = some body := if_pos hname
    obtain ⟨other, rfl⟩ := Option.isSome_iff_exists.mp hmain
    simp [hbody]
  | case3 helpers main signature body nodes hname hmain ih =>
    have hbody : (Node.function signature body).mainBody? = some body := if_pos hname
    have hhelper : (Node.function signature body).helperName? = none := if_pos hname
    rw [ih (List.forall_mem_cons.mp hnodes).2, List.filterMap_cons_some hbody,
      List.filterMap_cons_none hhelper, Option.not_isSome_iff_eq_none.mp hmain]
    rfl
  | case4 helpers main signature body nodes hname clash hclash =>
    have hhelper : (Node.function signature body).helperName? = some signature.name := if_neg hname
    rw [List.filterMap_cons_some hhelper]
    simp [hclash]
  | case5 helpers main signature body nodes hname hclash e he =>
    obtain ⟨lines, hlines⟩ := emitOutermost_isOk (hnodes _ (List.mem_cons_self ..))
    cases he.symm.trans hlines
  | case6 helpers main signature body nodes hname hclash lines hlines ih =>
    have hbody : (Node.function signature body).mainBody? = none := if_neg hname
    have hhelper : (Node.function signature body).helperName? = some signature.name := if_neg hname
    -- The names of the rest are new with this one counted in, so it is none of theirs.
    rw [map_isOk_iff, ih (List.forall_mem_cons.mp hnodes).2, List.filterMap_cons_none hbody,
      List.filterMap_cons_some hhelper, List.nodup_cons, List.forall_mem_cons]
    simp only [clash?_append_eq_none_iff, forall_and, hclash, true_and]
    constructor
    · rintro ⟨hmains, hnodup, hnew, hfree⟩
      exact ⟨hmains, ⟨fun hmem => hnew _ hmem rfl, hnodup⟩, hfree⟩
    · rintro ⟨hmains, ⟨hnew, hnodup⟩, hfree⟩
      exact ⟨hmains, hnodup, fun name hmem heq => hnew (heq ▸ hmem), hfree⟩
  | case7 helpers main node nodes hnode e he =>
    obtain ⟨lines, hlines⟩ := emitOutermost_isOk (hnodes _ (List.mem_cons_self ..))
    cases he.symm.trans hlines
  | case8 helpers main node nodes hnode lines hlines ih =>
    rw [map_isOk_iff, ih (List.forall_mem_cons.mp hnodes).2,
      List.filterMap_cons_none (Node.mainBody?_eq_none hnode),
      List.filterMap_cons_none (Node.helperName?_eq_none hnode)]

/-- The top level cannot be read at a second `main`, or at a helper function whose name is taken. -/
theorem outline_eq_error {helpers : List String} {main : Option (List Node)} {nodes : List Node}
    (hnodes : ∀ node ∈ nodes, ∀ below ∈ node.nodes, below.isWritable = true) {e : CompileError}
    (h : outline options imports helpers main nodes = .error e) :
    ∃ signature body, .function signature body ∈ nodes ∧
      (e = .generation (.secondMain signature.position) none ∨
        ∃ helpers clash, clash? options.implicit imports helpers signature.name = some clash ∧
          e = .generation (.nameClash signature.position signature.name clash) none) := by
  fun_induction outline options imports helpers main nodes with
  | case1 => cases h
  | case2 helpers main signature body =>
    cases h
    exact ⟨signature, body, List.mem_cons_self .., .inl rfl⟩
  | case3 helpers main signature body nodes hname hmain ih =>
    obtain ⟨signature, body, hmem, hfault⟩ := ih (List.forall_mem_cons.mp hnodes).2 h
    exact ⟨signature, body, List.mem_cons_of_mem _ hmem, hfault⟩
  | case4 helpers main signature body nodes hname clash hclash =>
    cases h
    exact ⟨signature, body, List.mem_cons_self .., .inr ⟨helpers, clash, hclash, rfl⟩⟩
  | case5 helpers main signature body nodes hname hclash e' he =>
    obtain ⟨lines, hlines⟩ := emitOutermost_isOk (hnodes _ (List.mem_cons_self ..))
    cases he.symm.trans hlines
  | case7 helpers main node nodes hnode e' he =>
    obtain ⟨lines, hlines⟩ := emitOutermost_isOk (hnodes _ (List.mem_cons_self ..))
    cases he.symm.trans hlines
  | case6 helpers main signature body nodes hname hclash lines hlines ih
  | case8 helpers main node nodes hnode lines hlines ih =>
    obtain ⟨signature, body, hmem, hfault⟩ :=
      ih (List.forall_mem_cons.mp hnodes).2 (map_eq_error_iff.mp h)
    exact ⟨signature, body, List.mem_cons_of_mem _ hmem, hfault⟩

/-! ## The whole script -/

theorem guardSections_isOk_iff {options : Options} {imports : List Import} :
    (∃ texts, guardSections options imports = .ok texts) ↔
      options.firstStatus.toNat + options.implicit.length
        + (importedOnly options.implicit imports).length ≤ 256 := by
  have hfirst : options.firstStatus.toNat < 256 := options.firstStatus.toNat_lt
  constructor
  · rintro ⟨texts, h⟩
    exact (guardSections_eq_ok h).1
  · intro hlength
    rw [guardSections_eq, List.getElem?_eq_none (by rw [List.length_append]; omega)]
    exact ⟨_, rfl⟩

theorem mainSections_isOk {indent : String} {body? : Option (List Node)}
    (h : ∀ body ∈ body?, ∀ node ∈ body, ∀ below ∈ node.nodes, below.isWritable = true) :
    ∃ texts, mainSections indent body? = .ok texts := by
  cases body? with
  | none => exact ⟨[], rfl⟩
  | some body =>
    rw [mainSections, map_isOk_iff, mainSection, map_isOk_iff]
    exact emitAll_isOk fun node hnode => emit_isOk (h body rfl node hnode) 0

theorem judged_eq_error {valid : String → Bool} {options : Options} {text : String}
    {e : CompileError} (h : judged valid options text = .error e) :
    options.verify = true ∧ e = .generation .invalidScript none := by
  rw [judged] at h
  split at h
  case isTrue hjudge => exact ⟨(Bool.and_eq_true_iff.mp hjudge).1, (Except.error.inj h).symm⟩
  case isFalse => cases h

end Script

namespace Program

/-- All that a program holds can be written. -/
def Writable (program : Program) : Prop :=
  ∀ node ∈ program.children, ∀ below ∈ node.nodes, below.isWritable = true

theorem Writable.mainBody {program : Program} (h : program.Writable) {body : List Node}
    (hbody : program.mainBody? = some body) :
    ∀ node ∈ body, ∀ below ∈ node.nodes, below.isWritable = true := by
  obtain ⟨signature, -, hmem⟩ := mem_children_of_mainBody? hbody
  intro node hnode below hbelow
  refine h _ hmem below ?_
  rw [Node.nodes, Node.nodesAmong_eq]
  exact List.mem_cons_of_mem _ (List.mem_flatMap.mpr ⟨node, hnode, hbelow⟩)

/-- The names of the functions other than `main`. -/
def helperNames (program : Program) : List String := program.functionNames.filter (· ≠ "main")

theorem helperNames_eq (program : Program) :
    program.helperNames = program.children.filterMap Node.helperName? := by
  rw [helperNames, functionNames, List.filter_filterMap]
  congr 1
  funext node
  cases node with
  | function signature body =>
    by_cases hname : signature.name = "main"
    · simp [Node.helperName?, hname]
    · simp [Node.helperName?, hname]
  | _ => rfl

theorem count_main_eq (program : Program) :
    program.functionNames.count "main" =
      (program.children.filterMap Node.mainBody?).length := by
  rw [functionNames]
  induction program.children with
  | nil => rfl
  | cons node nodes ih =>
    cases node with
    | function signature body =>
      by_cases hname : signature.name = "main"
      · simp [Node.mainBody?, hname, ih]
      · simp [Node.mainBody?, hname, ih]
    | _ => exact ih

end Program

namespace Script

variable {options : Options} {valid : String → Bool} {program : Program}

/-- The names of the helper functions differ from each other and from all commands. -/
structure NamesFree (options : Options) (program : Program) : Prop where
  main : program.functionNames.count "main" ≤ 1
  distinct : program.helperNames.Nodup
  implicit : ∀ name ∈ program.helperNames, name ∉ options.implicit
  imports : ∀ name ∈ program.helperNames, ∀ declaration ∈ program.imports,
    declaration.name ≠ name ∧ declaration.aliasName ≠ some name

theorem namesFree_iff :
    NamesFree options program ↔ (program.children.filterMap Node.mainBody?).length ≤ 1 ∧
      (program.children.filterMap Node.helperName?).Nodup ∧
      ∀ name ∈ program.children.filterMap Node.helperName?,
        clash? options.implicit program.imports [] name = none := by
  rw [← program.helperNames_eq, ← program.count_main_eq]
  simp only [clash?_eq_none_iff, Import.lookup_eq_none_iff]
  constructor
  · rintro ⟨hmain, hdistinct, himplicit, himports⟩
    exact ⟨hmain, hdistinct, fun name hname =>
      ⟨List.not_mem_nil, himplicit name hname, himports name hname⟩⟩
  · rintro ⟨hmain, hdistinct, hfree⟩
    exact ⟨hmain, hdistinct, fun name hname => (hfree name hname).2.1,
      fun name hname => (hfree name hname).2.2⟩

theorem outline_isOk_iff_namesFree (h : program.Writable) :
    (∃ top, outline options program.imports [] none program.children = .ok top) ↔
      NamesFree options program := by
  rw [outline_isOk_iff h, namesFree_iff, Option.toList_none, List.nil_append]

theorem generateBy_isOk_iff (h : program.Writable) (hverify : options.verify = false) :
    (∃ script, (generateBy valid options program).result = .ok script) ↔
      options.firstStatus.toNat + options.implicit.length
        + (importedOnly options.implicit program.imports).length ≤ 256 ∧
      NamesFree options program := by
  rw [← guardSections_isOk_iff, ← outline_isOk_iff_namesFree h]
  simp only [result_generateBy, bind_eq_ok_iff]
  constructor
  · rintro ⟨script, guards, hguards, top, htop, -⟩
    exact ⟨⟨guards, hguards⟩, ⟨top, htop⟩⟩
  · rintro ⟨⟨guards, hguards⟩, ⟨top, htop⟩⟩
    obtain ⟨texts, htexts⟩ := @mainSections_isOk options.indent top.main fun body hbody =>
      h.mainBody ((outline_eq htop).2.symm.trans hbody)
    exact ⟨_, guards, hguards, top, htop, texts, htexts, by rw [judged, hverify]; rfl⟩

/-- Generation fails at a check that no status is left for, at a function, or at the judgement. -/
theorem cases_of_generateBy (h : program.Writable) {e : CompileError}
    (he : (generateBy valid options program).result = .error e) :
    (∃ command ∈ options.implicit ++ importedOnly options.implicit program.imports,
      e = noStatus command) ∨
    (∃ signature body, .function signature body ∈ program.children ∧
      (e = .generation (.secondMain signature.position) none ∨
        ∃ helpers clash,
          clash? options.implicit program.imports helpers signature.name = some clash ∧
          e = .generation (.nameClash signature.position signature.name clash) none)) ∨
    options.verify = true ∧ e = .generation .invalidScript none := by
  rw [result_generateBy] at he
  obtain hguards | ⟨guards, -, he⟩ := bind_eq_error_iff.mp he
  · rw [guardSections_eq] at hguards
    split at hguards
    case h_1 => cases hguards
    case h_2 command hcommand =>
      cases hguards
      exact .inl ⟨command, List.mem_of_getElem? hcommand, rfl⟩
  obtain houtline | ⟨top, htop, he⟩ := bind_eq_error_iff.mp he
  · exact .inr (.inl (outline_eq_error h houtline))
  obtain hmain | ⟨texts, -, he⟩ := bind_eq_error_iff.mp he
  · obtain ⟨texts, htexts⟩ := @mainSections_isOk options.indent top.main fun body hbody =>
      h.mainBody ((outline_eq htop).2.symm.trans hbody)
    cases hmain.symm.trans htexts
  · exact .inr (.inr (judged_eq_error he))

theorem generateBy_eq_error (h : program.Writable) {e : CompileError}
    (he : (generateBy valid options program).result = .error e) :
    ∃ fault, e = .generation fault none ∧ ((∃ command, fault = .noStatusLeft command) ∨
      (∃ position, fault = .secondMain position) ∨
      (∃ position name clash, fault = .nameClash position name clash) ∨
      options.verify = true ∧ fault = .invalidScript) := by
  obtain ⟨command, -, rfl⟩ | ⟨signature, body, -, rfl | ⟨helpers, clash, -, rfl⟩⟩ |
    ⟨hverify, rfl⟩ := cases_of_generateBy h he
  · exact ⟨_, rfl, .inl ⟨command, rfl⟩⟩
  · exact ⟨_, rfl, .inr (.inl ⟨signature.position, rfl⟩)⟩
  · exact ⟨_, rfl, .inr (.inr (.inl ⟨signature.position, signature.name, clash, rfl⟩))⟩
  · exact ⟨_, rfl, .inr (.inr (.inr ⟨hverify, rfl⟩))⟩

end Script

/-! ## Helper functions in the script -/

namespace Node

theorem opened_of_isInner {node : Node} (h : node.isInner = true) (level : Nat) :
    (node.lines level).filterMap CodeLine.opened? = [] := by
  cases node with
  | invocation | comment => rfl
  | _ => cases h

theorem opened_linesAmong {body : List Node} (h : ∀ node ∈ body, node.isInner = true)
    (level : Nat) : (linesAmong level body).filterMap CodeLine.opened? = [] := by
  rw [linesAmong_eq, List.filterMap_flatMap, List.flatMap_eq_nil_iff]
  exact fun node hnode => opened_of_isInner (h node hnode) level

theorem opened_of_isOuter {node : Node} (h : node.isOuter = true) (hmain : node.mainBody? = none) :
    (node.lines 0).filterMap CodeLine.opened? = node.helperName?.toList := by
  cases node with
  | importing | comment => rfl
  | function signature body =>
    have hname : signature.name ≠ "main" := fun hname => by simp [mainBody?, hname] at hmain
    rw [lines, filterMap_enclose (fun _ _ _ => rfl) (fun _ => rfl) (fun _ => rfl),
      opened_linesAmong (List.all_eq_true.mp h), helperName?, if_neg hname]
    rfl
  | _ => cases h

end Node

namespace Program

/-- A program of imports, comments, and functions that hold invocations and comments. -/
def Flat (program : Program) : Prop := ∀ node ∈ program.children, node.isOuter = true

theorem Flat.writable {program : Program} (h : program.Flat) : program.Writable :=
  fun node hnode => Node.isWritable_of_isOuter (h node hnode)

theorem Flat.mapCommands {program : Program} (h : program.Flat) (f : Command → Command) :
    (program.mapCommands f).Flat := by
  intro node hnode
  obtain ⟨original, horiginal, rfl⟩ := List.mem_map.mp hnode
  rw [Node.isOuter_mapCommands]
  exact h original horiginal

theorem opened_sectionsAmong {nodes : List Node} (h : ∀ node ∈ nodes, node.isOuter = true) :
    (sectionsAmong nodes).flatMap (·.filterMap CodeLine.opened?) =
      nodes.filterMap Node.helperName? := by
  induction nodes with
  | nil => rfl
  | cons node nodes ih =>
    obtain ⟨hnode, hnodes⟩ := List.forall_mem_cons.mp h
    by_cases hmain : node.mainBody? = none
    · rw [sectionsAmong_cons hmain, List.flatMap_append, ih hnodes, List.filterMap_cons]
      have hopened := Node.opened_of_isOuter hnode hmain
      split
      case isTrue hempty =>
        rw [List.isEmpty_iff.mp hempty] at hopened
        cases hhelper : node.helperName? with
        | none => rfl
        | some name => rw [hhelper] at hopened; cases hopened
      case isFalse =>
        rw [List.flatMap_cons, List.flatMap_nil, List.append_nil, hopened]
        cases node.helperName? <;> rfl
    · rw [sectionsAmong_cons_of_main hmain, ih hnodes,
        List.filterMap_cons_none (Node.helperName?_of_main hmain)]

/-- The functions in the code of a program are its helper functions, in their order. -/
theorem opened_code {program : Program} (h : program.Flat) :
    program.code.flatMap (·.filterMap CodeLine.opened?) = program.helperNames := by
  have hmain : (mainCode program.mainBody?).flatMap (·.filterMap CodeLine.opened?) = [] := by
    cases hbody : program.mainBody? with
    | none => rfl
    | some body =>
      obtain ⟨signature, -, hmem⟩ := mem_children_of_mainBody? hbody
      have hinner := Node.opened_linesAmong (List.all_eq_true.mp (h _ hmem)) 0
      rw [mainCode, List.flatMap_cons, List.flatMap_nil, List.append_nil,
        List.filterMap_cons_none rfl, hinner]
  rw [code, List.flatMap_append, opened_sectionsAmong h, hmain, List.append_nil, helperNames_eq]

end Program

theorem Script.namesFree_of_generateBy {valid : String → Bool} {options : Options}
    {program : Program} (h : program.Writable) {script : String}
    (hscript : (generateBy valid options program).result = .ok script) :
    NamesFree options program := by
  rw [result_generateBy] at hscript
  obtain ⟨guards, -, hscript⟩ := bind_eq_ok_iff.mp hscript
  obtain ⟨top, htop, -⟩ := bind_eq_ok_iff.mp hscript
  exact (outline_isOk_iff_namesFree h).mp ⟨top, htop⟩

namespace Compiler

theorem flat_of_parse {config : Config} {file : Option String} {source : String}
    {program : Program} (h : (parse config file source).result = .ok program) : program.Flat :=
  fun node hnode => Node.isOuter_of_atTopLevel (atTopLevel_of_parse h node hnode)

/-- A resolved program has a script exactly if there are statuses for its checks and the names of
its functions are free; it can fail for no other reason but the judgement. In the script no helper
function has the name of a command that is run or checked for. -/
theorem script_exists_iff_names_free {config : Config} {file : Option String} {source : String}
    {parsed resolved : Program} (hparsed : (parse config file source).result = .ok parsed)
    (hresolved : parsed.resolve.toRun.result = .ok resolved) (valid : String → Bool)
    (options : Options) :
    (options.verify = false →
      ((∃ script, (generateBy valid options resolved).result = .ok script) ↔
        options.firstStatus.toNat + options.implicit.length
          + (importedOnly options.implicit resolved.imports).length ≤ 256 ∧
        NamesFree options resolved)) ∧
    (∀ e, (generateBy valid options resolved).result = .error e →
      ∃ fault, e = .generation fault none ∧ ((∃ command, fault = .noStatusLeft command) ∨
        (∃ position, fault = .secondMain position) ∨
        (∃ position name clash, fault = .nameClash position name clash) ∨
        options.verify = true ∧ fault = .invalidScript)) ∧
    ∀ script, (generateBy valid options resolved).result = .ok script →
      script = assemble ((if options.shebang.isEmpty then [] else [options.shebang])
        ++ checkSections options resolved.imports
        ++ resolved.code.map (sectionText options.indent)) ∧
      resolved.code.flatMap (·.filterMap CodeLine.opened?) = resolved.helperNames ∧
      ∀ name ∈ resolved.helperNames,
        (∀ lines ∈ resolved.code, ∀ command ∈ lines.filterMap CodeLine.command?,
          command.name ≠ name) ∧
        ∀ guard ∈ guards options resolved.imports, guard.command ≠ name := by
  have hrenamed := (Program.eq_mapCommands_of_resolve hresolved).2
  have hflat : resolved.Flat := hrenamed ▸ (flat_of_parse hparsed).mapCommands _
  have himports : resolved.imports = parsed.imports := by
    rw [hrenamed, Program.imports_mapCommands]
  refine ⟨generateBy_isOk_iff hflat.writable, fun e => generateBy_eq_error hflat.writable, ?_⟩
  intro script hscript
  have hfree := namesFree_of_generateBy hflat.writable hscript
  obtain ⟨checks, hchecks, rfl⟩ := generateBy_eq hscript
  obtain ⟨-, rfl⟩ := guardSections_eq_ok hchecks
  refine ⟨rfl, Program.opened_code hflat, fun name hname => ⟨?_, ?_⟩⟩
  · -- Commands that are run have the names of imports.
    intro lines hlines command hcommand
    obtain ⟨declaration, hdeclaration, heq⟩ :=
      Program.mem_imports_of_resolve hresolved (Program.mem_commands_of_code hlines hcommand)
    rw [heq]
    exact (hfree.imports name hname declaration (himports ▸ hdeclaration)).1
  · intro guard hguard heq
    have hmem := List.mem_map_of_mem (f := Guard.command) hguard
    rw [map_command_guards, heq, List.mem_append] at hmem
    obtain himplicit | himported := hmem
    · exact hfree.implicit name hname himplicit
    · obtain ⟨hname', -⟩ := List.mem_filter.mp (List.mem_eraseDups.mp himported)
      obtain ⟨declaration, hdeclaration, heq'⟩ := List.mem_map.mp hname'
      exact (hfree.imports name hname declaration hdeclaration).1 heq'

/-- The last status goes to the one import, and the helper function has a name of its own. -/
theorem script_exists_with_helper :
    ∃ parsed resolved,
      (parse {} none "import a as b;f:():\x7b$b[]\x7dmain:():\x7b$a[]\x7d").result = .ok parsed ∧
      parsed.resolve.toRun.result = .ok resolved ∧ resolved.helperNames = ["f"] ∧
      ∃ script, (generateBy (fun _ => false) ⟨"", "\t", [], 255, false⟩ resolved).result =
          .ok script ∧
        script = "if [[ -z \"$( which a )\" ]]; then\n"
          ++ "\techo \"imported command a could not be found\"\n\texit 255\nfi\n\n"
          ++ "f() \x7b\n\ta\n\x7d\n\n# main code\na\n" := by
  have hparsed : (parse {} none "import a as b;f:():\x7b$b[]\x7dmain:():\x7b$a[]\x7d").result =
      .ok ⟨[.importing ⟨"a", some "b", {}⟩,
        .function ⟨"f", [], none, { column := 15 }⟩ [.invocation ⟨"b", [], { column := 22 }⟩],
        .function ⟨"main", [], none, { column := 26 }⟩
          [.invocation ⟨"a", [], { column := 36 }⟩]]⟩ := by cbv
  refine ⟨_, _, hparsed, rfl, rfl, ?_⟩
  obtain ⟨script, hscript⟩ := ((script_exists_iff_names_free hparsed rfl (fun _ => false)
    ⟨"", "\t", [], 255, false⟩).1 rfl).mpr ⟨by decide, by decide, by decide, by decide, by decide⟩
  refine ⟨script, hscript, ?_⟩
  exact Except.ok.inj (hscript.symm.trans (eq_ok_of_toOption (by decide +kernel)))

end Compiler

end CheckedScript
