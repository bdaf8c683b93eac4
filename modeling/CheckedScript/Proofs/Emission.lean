import CheckedScript.Proofs.HelperNames

/-!
What cannot be written, and how that is reported. Parameters and roots have no lines. The first of
them on the way through the program is reported, inside the nodes that lead down to it, where
`main` comes last wherever it stands. In one equation: the error is the first one that a path
through the program ends in.

Main results:
* `Script.failure?_generate`: the error of a program without a script.
* `Script.generate_fails_at_first_fault`: when there is one, and its messages.

Statuses and free names are assumed here, and scripts are not judged.
-/

namespace CheckedScript

open Script

/-! ## Failures -/

/-- The error that a computation ends in. -/
def failure? {ε α : Type} : Except ε α → Option ε
  | .ok _ => none
  | .error e => some e

section Failure

variable {ε α β : Type}

theorem failure?_eq_some_iff {x : Except ε α} {e : ε} : failure? x = some e ↔ x = .error e := by
  cases x <;> simp [failure?]

theorem failure?_map (x : Except ε α) (f : α → β) : failure? (x.map f) = failure? x := by
  cases x <;> rfl

theorem failure?_bind {x : Except ε α} {f : α → Except ε β} (h : ∀ a, failure? (f a) = none) :
    failure? (x.bind f) = failure? x := by
  cases x with
  | error e => rfl
  | ok a => exact h a

end Failure

/-! ## Paths -/

namespace Node

/-- What forbids writing the node, if anything does. -/
def fault? : Node → Option ScriptFault
  | param declaration => some (.strayParameter declaration.name)
  | root _ => some .nestedRoot
  | _ => none

theorem fault?_eq_none_iff {node : Node} : node.fault? = none ↔ node.isWritable = true := by
  cases node <;> simp [fault?, isWritable]

/-- The node is one of the given nodes, or stands in the body of a function among them, at any
depth. -/
inductive Occurs (node : Node) : List Node → Prop
  | here {nodes : List Node} (h : node ∈ nodes) : Occurs node nodes
  | inBody {nodes body : List Node} {signature : Signature} (h : function signature body ∈ nodes)
      (inner : Occurs node body) : Occurs node nodes

mutual

/-- The paths from a node down through the bodies of functions, depth first. There is one to each
node that is reached. -/
def paths : Node → List (List Node)
  | function signature body =>
    [function signature body] :: (pathsAmong body).map (function signature body :: ·)
  | node => [[node]]

def pathsAmong : List Node → List (List Node)
  | [] => []
  | node :: rest => node.paths ++ pathsAmong rest

end

theorem pathsAmong_eq (nodes : List Node) : pathsAmong nodes = nodes.flatMap paths := by
  induction nodes with
  | nil => rfl
  | cons node rest ih => rw [pathsAmong, ih, List.flatMap_cons]

theorem pathsAmong_append (nodes others : List Node) :
    pathsAmong (nodes ++ others) = pathsAmong nodes ++ pathsAmong others := by
  rw [pathsAmong_eq, pathsAmong_eq, pathsAmong_eq, List.flatMap_append]

theorem singleton_mem_paths (node : Node) : [node] ∈ node.paths := by
  cases node <;> simp [paths]

namespace Occurs

variable {node : Node} {nodes others : List Node}

theorem mono (h : Occurs node nodes) (hsubset : nodes ⊆ others) : Occurs node others := by
  cases h with
  | here hmem => exact .here (hsubset hmem)
  | inBody hmem inner => exact .inBody (hsubset hmem) inner

theorem not_nil : ¬ Occurs node [] := by
  intro h
  cases h with
  | here hmem => cases hmem
  | inBody hmem => cases hmem

theorem of_append (h : Occurs node (nodes ++ others)) : Occurs node nodes ∨ Occurs node others := by
  cases h with
  | here hmem => exact (List.mem_append.mp hmem).imp .here .here
  | inBody hmem inner =>
    exact (List.mem_append.mp hmem).imp (fun h => .inBody h inner) fun h => .inBody h inner

/-- What occurs at or below one of the nodes occurs among them. -/
theorem of_mem {first : Node} (h : Occurs node [first]) (hmem : first ∈ nodes) :
    Occurs node nodes :=
  h.mono (List.cons_subset.mpr ⟨hmem, List.nil_subset _⟩)

theorem of_mem_paths {first : Node} {path : List Node} (h : path ∈ first.paths)
    (hlast : path.getLast? = some node) : Occurs node [first] := by
  induction first generalizing path with
  | function signature body ih =>
    rw [paths, pathsAmong_eq] at h
    obtain rfl | h := List.mem_cons.mp h
    · cases hlast
      exact .here (List.mem_singleton_self _)
    · obtain ⟨inner, hinner, rfl⟩ := List.mem_map.mp h
      obtain ⟨child, hchild, hmem⟩ := List.mem_flatMap.mp hinner
      by_cases hne : inner = []
      · subst hne
        cases hlast
        exact .here (List.mem_singleton_self _)
      · rw [List.getLast?_cons_of_ne_nil hne] at hlast
        exact .inBody (List.mem_singleton_self _) ((ih child hchild hmem hlast).of_mem hchild)
  | root | importing | param | invocation | expression | comment =>
    obtain rfl := List.mem_singleton.mp h
    cases hlast
    exact .here (List.mem_singleton_self _)

end Occurs

/-- The paths lead to every node that occurs, and to no other. -/
theorem occurs_iff_path {node : Node} {nodes : List Node} :
    Occurs node nodes ↔ ∃ path ∈ pathsAmong nodes, path.getLast? = some node := by
  rw [pathsAmong_eq]
  constructor
  · intro h
    induction h with
    | here hmem => exact ⟨[node], List.mem_flatMap.mpr ⟨node, hmem, node.singleton_mem_paths⟩, rfl⟩
    | @inBody nodes body signature hmem inner ih =>
      obtain ⟨path, hpath, hlast⟩ := ih
      have hne : path ≠ [] := by
        rintro rfl
        cases hlast
      refine ⟨function signature body :: path, List.mem_flatMap.mpr ⟨_, hmem, ?_⟩, ?_⟩
      · rw [paths, pathsAmong_eq]
        exact List.mem_cons_of_mem _ (List.mem_map.mpr ⟨path, hpath, rfl⟩)
      · rw [List.getLast?_cons_of_ne_nil hne, hlast]
  · rintro ⟨path, hpath, hlast⟩
    obtain ⟨first, hfirst, hmem⟩ := List.mem_flatMap.mp hpath
    exact (Occurs.of_mem_paths hmem hlast).of_mem hfirst

end Node

namespace Program

/-- The nodes that lines are written for, in the order in which they are written: the top level
without `main`, then the body of `main`. -/
def emitted (program : Program) : List Node :=
  program.children.filter (·.mainBody?.isNone) ++ program.mainBody?.getD []

theorem occurs_of_emitted {program : Program} {node : Node}
    (h : Node.Occurs node program.emitted) : Node.Occurs node program.children := by
  obtain hkept | hbody := h.of_append
  · exact hkept.mono (List.filter_subset_self ..)
  · cases hmain : program.mainBody? with
    | none =>
      rw [hmain] at hbody
      exact absurd hbody Node.Occurs.not_nil
    | some body =>
      rw [hmain] at hbody
      obtain ⟨signature, -, hfunction⟩ := mem_children_of_mainBody? hmain
      exact .inBody hfunction hbody

/-- Nothing that cannot be written is lost by setting `main` aside. -/
theorem occurs_emitted {program : Program} {node : Node} (hnode : node.isWritable = false)
    (hmains : (program.children.filterMap Node.mainBody?).length ≤ 1)
    (h : Node.Occurs node program.children) : Node.Occurs node program.emitted := by
  have hkept : ∀ other ∈ program.children, other.mainBody? = none → other ∈ program.emitted := by
    intro other hother hnone
    exact List.mem_append_left _ (List.mem_filter.mpr ⟨hother, by simp [hnone]⟩)
  cases h with
  | here hmem =>
    refine .here (hkept node hmem (Node.mainBody?_eq_none ?_))
    rintro signature body rfl
    cases hnode
  | @inBody _ body signature hmem inner =>
    by_cases hname : signature.name = "main"
    · have hmain := mainBody?_of_mem hmains hmem hname
      refine inner.mono fun other hother => List.mem_append_right _ ?_
      rw [hmain]
      exact hother
    · exact .inBody (hkept _ hmem (if_neg hname)) inner

end Program

/-! ## Chains of errors -/

/-- A fault, reported inside each node of a path, from the outermost on. -/
def CompileError.inside (path : List Node) (fault : ScriptFault) : CompileError :=
  path.foldr (fun node cause => .generation (.inNode node.describe) (some cause))
    (.generation fault none)

theorem CompileError.messages_inside (path : List Node) (fault : ScriptFault) :
    (inside path fault).message :: (inside path fault).causes =
      (path.map Node.describe ++ [fault.message]).map ("code generation failed: " ++ ·) := by
  induction path with
  | nil => rfl
  | cons node path ih =>
    rw [List.map_cons, List.cons_append, List.map_cons, ← ih]
    rfl

/-- The error that a path ends in, if its last node cannot be written. -/
def errorAt? (path : List Node) : Option CompileError :=
  (path.getLast?.bind Node.fault?).map (CompileError.inside path)

theorem errorAt?_eq_none_iff {path : List Node} :
    errorAt? path = none ↔ ∀ node ∈ path.getLast?, node.isWritable = true := by
  rw [errorAt?, Option.map_eq_none_iff, Option.bind_eq_none_iff]
  simp only [Node.fault?_eq_none_iff, Option.mem_def]

theorem errorAt?_eq_some {path : List Node} {e : CompileError} (h : errorAt? path = some e) :
    ∃ above node fault, path = above ++ [node] ∧ node.fault? = some fault ∧
      e = CompileError.inside path fault := by
  obtain ⟨fault, hfault, rfl⟩ := Option.map_eq_some_iff.mp h
  obtain ⟨node, hlast, hnode⟩ := Option.bind_eq_some_iff.mp hfault
  obtain ⟨above, rfl⟩ := List.getLast?_eq_some_iff.mp hlast
  exact ⟨above, node, fault, rfl, hnode, rfl⟩

/-- A function has no fault of its own, and puts itself around what is reported below it. -/
theorem errorAt?_function (signature : Signature) (body path : List Node) :
    errorAt? (.function signature body :: path) = (errorAt? path).map fun cause =>
      .generation (.inNode (Node.function signature body).describe) (some cause) := by
  cases path with
  | nil => rfl
  | cons node path =>
    rw [errorAt?, errorAt?, List.getLast?_cons_cons, Option.map_map]
    rfl

namespace Script

/-! ## Lines -/

variable {indent : String} {level : Nat}

theorem failure?_within {α : Type} (node : Node) (r : Except CompileError α) :
    failure? (within node r) =
      (failure? r).map fun cause => .generation (.inNode node.describe) (some cause) := by
  cases r <;> rfl

theorem failure?_emitAll_cons (node : Node) (rest : List Node) :
    failure? (emitAll indent level (node :: rest)) =
      (failure? (within node (emit indent level node))).or
        (failure? (emitAll indent level rest)) := by
  rw [emitAll]
  cases within node (emit indent level node) with
  | error e => rfl
  | ok lines => exact failure?_map _ _

theorem failure?_emitAll_of {nodes : List Node}
    (h : ∀ node ∈ nodes,
      failure? (within node (emit indent level node)) = node.paths.findSome? errorAt?) :
    failure? (emitAll indent level nodes) = (Node.pathsAmong nodes).findSome? errorAt? := by
  induction nodes with
  | nil => rfl
  | cons node rest ih =>
    obtain ⟨hfirst, hrest⟩ := List.forall_mem_cons.mp h
    rw [failure?_emitAll_cons, hfirst, ih hrest, Node.pathsAmong, List.findSome?_append]

/-- Writing a node fails as the first path from it that ends in an error. -/
theorem failure?_emit (node : Node) :
    failure? (within node (emit indent level node)) = node.paths.findSome? errorAt? := by
  induction node generalizing level with
  | function signature body ih =>
    have hbody := failure?_emitAll_of fun node hmem => @ih node hmem (level + 1)
    have hown : errorAt? [.function signature body] = none := rfl
    rw [failure?_within, emit, failure?_map, hbody, Node.paths, List.findSome?_cons, hown,
      List.findSome?_map]
    simp only [Function.comp_def, errorAt?_function]
    exact List.map_findSome? ..
  | root | importing | param | invocation | expression | comment => rfl

theorem failure?_emitAll (nodes : List Node) :
    failure? (emitAll indent level nodes) = (Node.pathsAmong nodes).findSome? errorAt? :=
  failure?_emitAll_of fun node _ => failure?_emit node

/-! ## The top level -/

variable {options : Options} {imports : List Import} {program : Program}

/-- Where no name is taken and `main` stands once, only a node that cannot be written ends the
reading of the top level. -/
theorem failure?_outline {helpers : List String} {main : Option (List Node)} {nodes : List Node}
    (hmains : (main.toList ++ nodes.filterMap Node.mainBody?).length ≤ 1)
    (hdistinct : (nodes.filterMap Node.helperName?).Nodup)
    (hfree : ∀ name ∈ nodes.filterMap Node.helperName?,
      clash? options.implicit imports helpers name = none) :
    failure? (outline options imports helpers main nodes) =
      (Node.pathsAmong (nodes.filter (·.mainBody?.isNone))).findSome? errorAt? := by
  -- A node in front is written before the rest, unless it is `main`.
  have hcons : ∀ (node : Node) (rest : List Node), node.mainBody? = none →
      (Node.pathsAmong ((node :: rest).filter (·.mainBody?.isNone))).findSome? errorAt? =
        (failure? (emitOutermost options.indent node)).or
          ((Node.pathsAmong (rest.filter (·.mainBody?.isNone))).findSome? errorAt?) := by
    intro node rest hnone
    rw [List.filter_cons_of_pos (by simp [hnone]), Node.pathsAmong, List.findSome?_append,
      emitOutermost, failure?_emit]
  fun_induction outline options imports helpers main nodes with
  | case1 => rfl
  | case2 helpers main signature body nodes hname hmain =>
    have hbody : (Node.function signature body).mainBody? = some body := if_pos hname
    obtain ⟨other, rfl⟩ := Option.isSome_iff_exists.mp hmain
    simp [hbody] at hmains
  | case3 helpers main signature body nodes hname hmain ih =>
    have hbody : (Node.function signature body).mainBody? = some body := if_pos hname
    have hhelper : (Node.function signature body).helperName? = none := if_pos hname
    rw [List.filterMap_cons_none hhelper] at hdistinct hfree
    rw [Option.not_isSome_iff_eq_none.mp hmain, List.filterMap_cons_some hbody] at hmains
    rw [List.filter_cons_of_neg (by simp [hbody])]
    exact ih hmains hdistinct hfree
  | case4 helpers main signature body nodes hname clash hclash =>
    have hhelper : (Node.function signature body).helperName? = some signature.name := if_neg hname
    have hnone := hfree signature.name (by rw [List.filterMap_cons_some hhelper]; simp)
    cases hclash.symm.trans hnone
  | case5 helpers main signature body nodes hname hclash e he =>
    have hbody : (Node.function signature body).mainBody? = none := if_neg hname
    rw [hcons _ _ hbody, he]
    rfl
  | case6 helpers main signature body nodes hname hclash lines hlines ih =>
    have hbody : (Node.function signature body).mainBody? = none := if_neg hname
    have hhelper : (Node.function signature body).helperName? = some signature.name := if_neg hname
    rw [List.filterMap_cons_none hbody] at hmains
    rw [List.filterMap_cons_some hhelper] at hdistinct hfree
    obtain ⟨hnew, hdistinct⟩ := List.nodup_cons.mp hdistinct
    have hrest := ih hmains hdistinct fun name hmem => clash?_append_eq_none_iff.mpr
      ⟨fun heq => hnew (heq ▸ hmem), hfree name (List.mem_cons_of_mem _ hmem)⟩
    rw [failure?_map, hrest, hcons _ _ hbody, hlines]
    rfl
  | case7 helpers main node nodes hnode e he =>
    rw [hcons _ _ (Node.mainBody?_eq_none hnode), he]
    rfl
  | case8 helpers main node nodes hnode lines hlines ih =>
    rw [List.filterMap_cons_none (Node.mainBody?_eq_none hnode)] at hmains
    rw [List.filterMap_cons_none (Node.helperName?_eq_none hnode)] at hdistinct hfree
    rw [failure?_map, ih hmains hdistinct hfree, hcons _ _ (Node.mainBody?_eq_none hnode), hlines]
    rfl

theorem failure?_mainSections (body? : Option (List Node)) :
    failure? (mainSections indent body?) =
      (Node.pathsAmong (body?.getD [])).findSome? errorAt? := by
  cases body? with
  | none => rfl
  | some body =>
    rw [mainSections, failure?_map, mainSection, failure?_map, failure?_emitAll]
    rfl

/-! ## The whole script -/

/-- With statuses for all checks and free names, a script fails as the first path through the
program that ends in an error. -/
theorem failure?_generate (hverify : options.verify = false)
    (hstatuses : options.firstStatus.toNat + options.implicit.length
      + (importedOnly options.implicit program.imports).length ≤ 256)
    (hnames : NamesFree options program) :
    failure? (generate options program).result =
      (Node.pathsAmong program.emitted).findSome? errorAt? := by
  obtain ⟨guards, hguards⟩ := guardSections_isOk_iff.mpr hstatuses
  obtain ⟨hmains, hdistinct, hfree⟩ := namesFree_iff.mp hnames
  have houtline := @failure?_outline options program.imports [] none program.children
    hmains hdistinct hfree
  have hjudged : ∀ script, failure? (judged isValid options script) = none := by
    intro script
    rw [judged, hverify]
    rfl
  rw [generate, result_generateBy, hguards, Program.emitted, Node.pathsAmong_append,
    List.findSome?_append, ← houtline]
  cases htop : outline options program.imports [] none program.children with
  | error e => rfl
  | ok top =>
    have hmain : top.main = program.mainBody? := (outline_eq htop).2
    rw [← hmain, ← failure?_mainSections]
    exact failure?_bind fun main => hjudged _

/-- With statuses for all checks and free names, a program has no script exactly if a parameter or
a root stands in it where lines are to be written. The error names the nodes on the path to the
first of these, and what is wrong with it. -/
theorem generate_fails_at_first_fault (hverify : options.verify = false)
    (hstatuses : options.firstStatus.toNat + options.implicit.length
      + (importedOnly options.implicit program.imports).length ≤ 256)
    (hnames : NamesFree options program) :
    ((∃ e, (generate options program).result = .error e) ↔
      ∃ node, Node.Occurs node program.children ∧ node.isWritable = false) ∧
    ∀ e, (generate options program).result = .error e →
      ∃ earlier above node later fault,
        Node.pathsAmong program.emitted = earlier ++ (above ++ [node]) :: later ∧
        (∀ path ∈ earlier, ∀ other ∈ path.getLast?, other.isWritable = true) ∧
        node.fault? = some fault ∧
        e = CompileError.inside (above ++ [node]) fault ∧
        e.message :: e.causes = ((above ++ [node]).map Node.describe ++ [fault.message]).map
          ("code generation failed: " ++ ·) := by
  have hfailure := failure?_generate hverify hstatuses hnames
  have herror : ∀ e, (generate options program).result = .error e ↔
      (Node.pathsAmong program.emitted).findSome? errorAt? = some e := by
    intro e
    rw [← failure?_eq_some_iff, hfailure]
  refine ⟨⟨?_, ?_⟩, ?_⟩
  · rintro ⟨e, he⟩
    obtain ⟨path, hpath, hat⟩ := List.exists_of_findSome?_eq_some ((herror e).mp he)
    obtain ⟨above, node, fault, rfl, hfault, -⟩ := errorAt?_eq_some hat
    refine ⟨node, Program.occurs_of_emitted (Node.occurs_iff_path.mpr ⟨_, hpath, by simp⟩), ?_⟩
    rw [← Bool.not_eq_true, ← Node.fault?_eq_none_iff, hfault]
    exact Option.some_ne_none fault
  · rintro ⟨node, hoccurs, hnode⟩
    obtain ⟨path, hpath, hlast⟩ := Node.occurs_iff_path.mp
      (Program.occurs_emitted hnode (namesFree_iff.mp hnames).1 hoccurs)
    cases hfind : (Node.pathsAmong program.emitted).findSome? errorAt? with
    | some e => exact ⟨e, (herror e).mpr hfind⟩
    | none =>
      have hwritable := errorAt?_eq_none_iff.mp (List.findSome?_eq_none_iff.mp hfind path hpath)
      cases hnode.symm.trans (hwritable node hlast)
  · intro e he
    obtain ⟨earlier, path, later, hpaths, hat, hearlier⟩ :=
      List.findSome?_eq_some_iff.mp ((herror e).mp he)
    obtain ⟨above, node, fault, rfl, hfault, rfl⟩ := errorAt?_eq_some hat
    exact ⟨earlier, above, node, later, fault, hpaths,
      fun path hmem => errorAt?_eq_none_iff.mp (hearlier path hmem), hfault, rfl,
      CompileError.messages_inside _ fault⟩

/-- A parameter in a nested function, with `main` and the root in its body in front of it. The last
status goes to the import. -/
theorem generate_fails_at_first_fault_behind_main :
    let stray : Node := .param ⟨"x", .string⟩
    let nested : Node := .function ⟨"main", [], none, {}⟩ [stray]
    let helper : Node := .function ⟨"f", [], none, {}⟩ [.comment "", nested]
    let program : Program := ⟨[.function ⟨"main", [], none, {}⟩ [.root []],
      .importing ⟨"ls", none, {}⟩, helper]⟩
    let options : Options := ⟨"", "", ["which"], 254, false⟩
    let e := CompileError.inside [helper, nested, stray] (.strayParameter "x")
    NamesFree options program ∧ Node.Occurs stray program.children ∧
      (∃ e, (generate options program).result = .error e) ∧
      (generate options program).result = .error e ∧
      ∃ earlier above node later fault,
        Node.pathsAmong program.emitted = earlier ++ (above ++ [node]) :: later ∧
        (∀ path ∈ earlier, ∀ other ∈ path.getLast?, other.isWritable = true) ∧
        node.fault? = some fault ∧ e = CompileError.inside (above ++ [node]) fault ∧
        ((above ++ [node]).map Node.describe ++ [fault.message]).map
            ("code generation failed: " ++ ·) =
          ["code generation failed: function `f`", "code generation failed: function `main`",
            "code generation failed: parameter `x`",
            "code generation failed: parameter `x` outside a parameter list"] := by
  intro stray nested helper program options e
  have hnames : NamesFree options program := ⟨by decide, by decide, by decide, by decide⟩
  have hhelper : helper ∈ program.children := by simp [program]
  have hnested : nested ∈ [.comment "", nested] := by simp
  have hoccurs : Node.Occurs stray program.children :=
    .inBody hhelper (.inBody hnested (.here (List.mem_singleton_self _)))
  have he : (generate options program).result = .error e := by rfl
  have hstatuses : options.firstStatus.toNat + options.implicit.length
      + (importedOnly options.implicit program.imports).length ≤ 256 := by decide
  obtain ⟨hfails, hfirst⟩ := generate_fails_at_first_fault rfl hstatuses hnames
  obtain ⟨earlier, above, node, later, fault, hpaths, hearlier, hfault, heq, hmessages⟩ :=
    hfirst e he
  exact ⟨hnames, hoccurs, hfails.mpr ⟨stray, hoccurs, rfl⟩, he, earlier, above, node, later, fault,
    hpaths, hearlier, hfault, heq, hmessages.symm.trans (by decide)⟩

end Script

end CheckedScript
