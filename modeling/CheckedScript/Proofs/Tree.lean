import Mathlib.Data.List.Basic
import CheckedScript.Imports

/-!
The tree of a program read depth first. `Node.nodes` lists every node, and the imports and the
commands of a tree are those in this list. A tree is determined by its shape, what is left when
the commands are blanked out, and its commands.

Main results:
* `Node.imports_eq`: imports are collected depth first.
* `Node.eq_of_shapes_of_commands`: shape and commands determine a tree.
-/

namespace CheckedScript

namespace Node

/-! ## Induction -/

/-- Induction on trees, with a hypothesis for each child. -/
@[induction_eliminator]
theorem induct {P : Node → Prop}
    (root : ∀ children, (∀ node ∈ children, P node) → P (root children))
    (importing : ∀ declaration, P (importing declaration))
    (function : ∀ signature body, (∀ node ∈ body, P node) → P (function signature body))
    (param : ∀ declaration, P (param declaration)) (invocation : ∀ command, P (invocation command))
    (expression : ∀ command, P (expression command)) (comment : ∀ text, P (comment text))
    (node : Node) : P node :=
  @Node.rec P (fun nodes => ∀ node ∈ nodes, P node) root importing function param invocation
    expression comment (by simp) (fun first rest hfirst hrest => by simpa using ⟨hfirst, hrest⟩)
    node

/-! ## Depth first -/

mutual

/-- The node and all that is below it, depth first. -/
def nodes : Node → List Node
  | root children => root children :: nodesAmong children
  | function signature body => function signature body :: nodesAmong body
  | importing declaration => [importing declaration]
  | param declaration => [param declaration]
  | invocation command => [invocation command]
  | expression command => [expression command]
  | comment text => [comment text]

def nodesAmong : List Node → List Node
  | [] => []
  | node :: rest => node.nodes ++ nodesAmong rest

end

def import? : Node → Option Import
  | importing declaration => some declaration
  | _ => none

/-- The command that a node invokes or consists of. -/
def command? : Node → Option Command
  | invocation command => some command
  | expression command => some command
  | _ => none

/-- The commands at and below a node, depth first. -/
def commands (node : Node) : List Command := node.nodes.filterMap command?

mutual

/-- The tree with every command changed by `f`. -/
def mapCommands (f : Command → Command) : Node → Node
  | root children => root (mapCommandsAmong f children)
  | function signature body => function signature (mapCommandsAmong f body)
  | invocation command => invocation (f command)
  | expression command => expression (f command)
  | importing declaration => importing declaration
  | param declaration => param declaration
  | comment text => comment text

def mapCommandsAmong (f : Command → Command) : List Node → List Node
  | [] => []
  | node :: rest => node.mapCommands f :: mapCommandsAmong f rest

end

/-- What is left of a tree when its commands are blanked out. -/
def shape (node : Node) : Node := node.mapCommands fun _ => ⟨"", [], {}⟩

theorem nodesAmong_eq (nodes : List Node) : nodesAmong nodes = nodes.flatMap Node.nodes := by
  induction nodes with
  | nil => rfl
  | cons node rest ih => rw [nodesAmong, ih, List.flatMap_cons]

theorem importsAmong_eq (nodes : List Node) : importsAmong nodes = nodes.flatMap Node.imports := by
  induction nodes with
  | nil => rfl
  | cons node rest ih => rw [importsAmong, ih, List.flatMap_cons]

theorem mapCommandsAmong_eq (f : Command → Command) (nodes : List Node) :
    mapCommandsAmong f nodes = nodes.map (mapCommands f) := by
  induction nodes with
  | nil => rfl
  | cons node rest ih => rw [mapCommandsAmong, ih, List.map_cons]

theorem filterMap_nodesAmong {α : Type} (f : Node → Option α) (nodes : List Node) :
    (nodesAmong nodes).filterMap f = nodes.flatMap fun node => node.nodes.filterMap f := by
  rw [nodesAmong_eq]
  induction nodes with
  | nil => rfl
  | cons node rest ih => rw [List.flatMap_cons, List.filterMap_append, ih, List.flatMap_cons]

/-! ## Imports and commands -/

theorem imports_root (children : List Node) :
    (root children).imports = children.flatMap imports := importsAmong_eq children

theorem imports_function (signature : Signature) (body : List Node) :
    (function signature body).imports = body.flatMap imports := importsAmong_eq body

theorem commands_root (children : List Node) :
    (root children).commands = children.flatMap commands :=
  filterMap_nodesAmong command? children

theorem commands_function (signature : Signature) (body : List Node) :
    (function signature body).commands = body.flatMap commands :=
  filterMap_nodesAmong command? body

theorem mapCommands_root (f : Command → Command) (children : List Node) :
    (root children).mapCommands f = root (children.map (mapCommands f)) :=
  congrArg root (mapCommandsAmong_eq f children)

theorem mapCommands_function (f : Command → Command) (signature : Signature) (body : List Node) :
    (function signature body).mapCommands f = function signature (body.map (mapCommands f)) :=
  congrArg (function signature) (mapCommandsAmong_eq f body)

/-- The imports that resolution collects are those met depth first. -/
theorem imports_eq (node : Node) : node.imports = node.nodes.filterMap import? := by
  induction node with
  | root children ih =>
    rw [imports_root]
    exact (List.flatMap_congr ih).trans (filterMap_nodesAmong import? children).symm
  | function signature body ih =>
    rw [imports_function]
    exact (List.flatMap_congr ih).trans (filterMap_nodesAmong import? body).symm
  | importing | param | invocation | expression | comment => rfl

theorem imports_mapCommands (f : Command → Command) (node : Node) :
    (node.mapCommands f).imports = node.imports := by
  induction node with
  | root children ih =>
    rw [mapCommands_root, imports_root, imports_root, List.flatMap_map]
    exact List.flatMap_congr ih
  | function signature body ih =>
    rw [mapCommands_function, imports_function, imports_function, List.flatMap_map]
    exact List.flatMap_congr ih
  | importing | param | invocation | expression | comment => rfl

theorem commands_mapCommands (f : Command → Command) (node : Node) :
    (node.mapCommands f).commands = node.commands.map f := by
  induction node with
  | root children ih =>
    rw [mapCommands_root, commands_root, commands_root, List.flatMap_map, List.map_flatMap]
    exact List.flatMap_congr ih
  | function signature body ih =>
    rw [mapCommands_function, commands_function, commands_function, List.flatMap_map,
      List.map_flatMap]
    exact List.flatMap_congr ih
  | importing | param | invocation | expression | comment => rfl

theorem mem_commands_of_command? {node : Node} {command : Command}
    (h : node.command? = some command) : command ∈ node.commands := by
  cases node with
  | invocation | expression => cases h; exact List.mem_singleton_self _
  | _ => cases h

/-! ## Shapes -/

theorem shape_root (children : List Node) : (root children).shape = root (children.map shape) :=
  mapCommands_root _ children

theorem shape_function (signature : Signature) (body : List Node) :
    (function signature body).shape = function signature (body.map shape) :=
  mapCommands_function _ signature body

theorem shape_mapCommands (f : Command → Command) (node : Node) :
    (node.mapCommands f).shape = node.shape := by
  induction node with
  | root children ih =>
    rw [mapCommands_root, shape_root, shape_root, List.map_map]
    exact congrArg root (List.map_congr_left ih)
  | function signature body ih =>
    rw [mapCommands_function, shape_function, shape_function, List.map_map]
    exact congrArg (function signature) (List.map_congr_left ih)
  | importing | param | invocation | expression | comment => rfl

theorem length_commands_of_shape {node other : Node} (h : node.shape = other.shape) :
    node.commands.length = other.commands.length := by
  have hcommands := congrArg (fun node => node.commands.length) h
  simpa only [shape, commands_mapCommands, List.length_map] using hcommands

/-- The commands of a list of trees belong to the trees in one way only, as each shape says how
many are its own. -/
theorem eq_of_shapes_of_commands {nodes : List Node}
    (h : ∀ node ∈ nodes, ∀ other : Node,
      node.shape = other.shape → node.commands = other.commands → node = other)
    {others : List Node} (hshape : nodes.map shape = others.map shape)
    (hcommands : nodes.flatMap commands = others.flatMap commands) : nodes = others := by
  induction nodes generalizing others with
  | nil => exact (List.map_eq_nil_iff.mp hshape.symm).symm
  | cons node rest ih =>
    obtain _ | ⟨other, others⟩ := others
    · cases hshape
    · rw [List.map_cons, List.map_cons] at hshape
      obtain ⟨hfirst, hrest⟩ := List.cons.inj hshape
      rw [List.flatMap_cons, List.flatMap_cons] at hcommands
      -- Equal shapes have equally many commands, so both lists are cut at the same place.
      obtain ⟨hown, hothers⟩ := List.append_inj hcommands (length_commands_of_shape hfirst)
      rw [h node (List.mem_cons_self ..) other hfirst hown,
        ih (fun node hmem => h node (List.mem_cons_of_mem _ hmem)) hrest hothers]

theorem eq_of_shape_of_commands {node other : Node} (hshape : node.shape = other.shape)
    (hcommands : node.commands = other.commands) : node = other := by
  induction node generalizing other with
  | root children ih =>
    cases other with
    | root others =>
      rw [shape_root, shape_root] at hshape
      rw [commands_root, commands_root] at hcommands
      have hih := fun node hmem other => @ih node hmem other
      rw [eq_of_shapes_of_commands hih (root.inj hshape) hcommands]
    | _ => cases hshape
  | function signature body ih =>
    cases other with
    | function signature' others =>
      rw [shape_function, shape_function] at hshape
      rw [commands_function, commands_function] at hcommands
      obtain ⟨rfl, hbody⟩ := function.inj hshape
      have hih := fun node hmem other => @ih node hmem other
      rw [eq_of_shapes_of_commands hih hbody hcommands]
    | _ => cases hshape
  | importing | param | comment => cases other <;> cases hshape; rfl
  | invocation | expression => cases other <;> cases hshape; cases hcommands; rfl

end Node

namespace Program

/-- Every node of a program, depth first. -/
def nodes (program : Program) : List Node := program.children.flatMap Node.nodes

/-- The commands of a program, depth first. -/
def commands (program : Program) : List Command := program.nodes.filterMap Node.command?

def mapCommands (f : Command → Command) (program : Program) : Program :=
  ⟨program.children.map (Node.mapCommands f)⟩

/-- What is left of a program when its commands are blanked out. -/
def shape (program : Program) : Program := program.mapCommands fun _ => ⟨"", [], {}⟩

theorem imports_eq (program : Program) :
    program.imports = program.nodes.filterMap Node.import? := by
  rw [imports, Node.importsAmong_eq, nodes, ← Node.nodesAmong_eq, Node.filterMap_nodesAmong]
  exact List.flatMap_congr fun node _ => node.imports_eq

theorem imports_mapCommands (f : Command → Command) (program : Program) :
    (program.mapCommands f).imports = program.imports := by
  rw [imports, imports, mapCommands, Node.importsAmong_eq, Node.importsAmong_eq, List.flatMap_map]
  exact List.flatMap_congr fun node _ => node.imports_mapCommands f

theorem commands_eq (program : Program) :
    program.commands = program.children.flatMap Node.commands := by
  rw [commands, nodes, ← Node.nodesAmong_eq, Node.filterMap_nodesAmong]
  rfl

theorem commands_mapCommands (f : Command → Command) (program : Program) :
    (program.mapCommands f).commands = program.commands.map f := by
  rw [commands_eq, commands_eq, mapCommands, List.flatMap_map, List.map_flatMap]
  exact List.flatMap_congr fun node _ => node.commands_mapCommands f

theorem shape_mapCommands (f : Command → Command) (program : Program) :
    (program.mapCommands f).shape = program.shape := by
  rw [shape, shape, mapCommands, mapCommands, mapCommands, List.map_map]
  exact congrArg mk (List.map_congr_left fun node _ => node.shape_mapCommands f)

theorem eq_of_shape_of_commands {program other : Program} (hshape : program.shape = other.shape)
    (hcommands : program.commands = other.commands) : program = other := by
  rw [commands_eq, commands_eq] at hcommands
  have hchildren := Node.eq_of_shapes_of_commands
    (fun _ _ _ => Node.eq_of_shape_of_commands) (mk.inj hshape) hcommands
  exact congrArg mk hchildren

end Program

end CheckedScript
