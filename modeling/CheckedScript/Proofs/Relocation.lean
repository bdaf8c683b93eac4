import CheckedScript.Proofs.Code
import CheckedScript.Proofs.Lexing
import CheckedScript.Proofs.Resolution
import CheckedScript.Proofs.Simulation

/-!
Positions are only carried along. Moving the positions of the tokens by any function `f` moves
those of what is lexed, parsed, resolved and reported, and changes nothing else; the script has no
positions, so it stays the same.

Main result:
* `Compiler.result_compileBy_moved`: sources whose tokens differ in positions only.
-/

namespace CheckedScript

/-! ## Moving positions -/

/-- Forgets where a position is. -/
def Position.forget (_ : Position) : Position := {}

section

variable (f : Position → Position)

def Token.moved (t : Token) : Token := { t with position := f t.position }

def Import.moved (declaration : Import) : Import :=
  { declaration with position := f declaration.position }

def Command.moved (command : Command) : Command := { command with position := f command.position }

def Signature.moved (signature : Signature) : Signature :=
  { signature with position := f signature.position }

namespace Node

mutual

def moved : Node → Node
  | root children => root (movedAmong children)
  | importing declaration => importing (declaration.moved f)
  | function signature body => function (signature.moved f) (movedAmong body)
  | param declaration => param declaration
  | invocation command => invocation (command.moved f)
  | expression command => expression (command.moved f)
  | comment text => comment text

def movedAmong : List Node → List Node
  | [] => []
  | node :: rest => node.moved :: movedAmong rest

end

end Node

def Program.moved (program : Program) : Program := ⟨program.children.map (Node.moved f)⟩

def ScriptFault.moved : ScriptFault → ScriptFault
  | secondMain position => secondMain (f position)
  | nameClash position name clash => nameClash (f position) name clash
  | fault => fault

def CompileError.moved : CompileError → CompileError
  | classification pattern fault => classification pattern fault
  | malformed fault position => malformed fault (position.map f)
  | nestingTooDeep limit position => nestingTooDeep limit (position.map f)
  | unresolved command position => unresolved command (position.map f)
  | generation fault none => generation (fault.moved f) none
  | generation fault (some cause) => generation (fault.moved f) (some cause.moved)

def Grammar.Declaration.moved (declaration : Declaration) : Declaration where
  signature := declaration.signature.moved f
  opener := declaration.opener.moved f
  body := declaration.body.map (Token.moved f)

end

variable {f : Position → Position}

@[simp] theorem Token.kind_moved (t : Token) : (t.moved f).kind = t.kind := rfl

@[simp] theorem Token.text_moved (t : Token) : (t.moved f).text = t.text := rfl

@[simp] theorem Signature.name_moved (signature : Signature) :
    (signature.moved f).name = signature.name := rfl

namespace Node

theorem movedAmong_eq (nodes : List Node) : movedAmong f nodes = nodes.map (moved f) := by
  induction nodes with
  | nil => rfl
  | cons node rest ih => rw [movedAmong, ih, List.map_cons]

theorem moved_root (children : List Node) :
    (root children).moved f = root (children.map (moved f)) :=
  congrArg root (movedAmong_eq children)

theorem moved_function (signature : Signature) (body : List Node) :
    (function signature body).moved f = function (signature.moved f) (body.map (moved f)) :=
  congrArg (function (signature.moved f)) (movedAmong_eq body)

end Node

/-! ## Lexing -/

namespace Token

theorem merge_moved (kind : Kind) (parts : List Token) (mark : Token) :
    merge kind (parts.map (moved f)) (mark.moved f) = (merge kind parts mark).moved f := by
  cases parts with
  | nil => rfl
  | cons part parts =>
    simp only [merge, moved, List.map_cons, List.map_map]
    rfl

theorem joinStringsFrom_moved (mark : Option Token) (parts ts : List Token) :
    joinStringsFrom (mark.map (moved f)) (parts.map (moved f)) (ts.map (moved f)) =
      mapBoth (CompileError.moved f) (List.map (moved f)) (joinStringsFrom mark parts ts) := by
  fun_induction joinStringsFrom mark parts ts with
  | case1 => rfl
  | case2 => rfl
  | case3 parts t ts hkind ih =>
    rw [List.map_cons, Option.map_none, joinStringsFrom, kind_moved, if_pos hkind]
    exact ih
  | case4 parts t ts hkind ih =>
    rw [List.map_cons, Option.map_none, joinStringsFrom, kind_moved, if_neg hkind]
    rw [Option.map_none, List.map_nil] at ih
    rw [ih]
    apply map_mapBoth
    intro others
    rfl
  | case5 parts t ts mark hkind ih =>
    rw [List.map_cons, Option.map_some, joinStringsFrom, kind_moved, if_pos hkind]
    rw [Option.map_none, List.map_nil] at ih
    rw [ih]
    apply map_mapBoth
    intro others
    rw [← List.map_reverse, merge_moved]
    rfl
  | case6 parts t ts mark hkind ih =>
    rw [List.map_cons, Option.map_some, joinStringsFrom, kind_moved, if_neg hkind]
    exact ih

theorem joinCommentsFrom_moved (mark : Option Token) (parts ts : List Token) :
    joinCommentsFrom (mark.map (moved f)) (parts.map (moved f)) (ts.map (moved f)) =
      (joinCommentsFrom mark parts ts).map (moved f) := by
  fun_induction joinCommentsFrom mark parts ts with
  | case1 => rfl
  | case2 parts mark =>
    rw [Option.map_some, List.map_nil, joinCommentsFrom, ← List.map_reverse, merge_moved]
    rfl
  | case3 parts t ts hkind ih =>
    rw [List.map_cons, Option.map_none, joinCommentsFrom, kind_moved, if_pos hkind]
    exact ih
  | case4 parts t ts hkind ih =>
    rw [List.map_cons, Option.map_none, joinCommentsFrom, kind_moved, if_neg hkind]
    exact congrArg _ ih
  | case5 parts t ts mark hkind ih =>
    rw [List.map_cons, Option.map_some, joinCommentsFrom, kind_moved, if_pos hkind,
      ← List.map_reverse, merge_moved]
    exact congrArg _ (congrArg _ ih)
  | case6 parts t ts mark hkind ih =>
    rw [List.map_cons, Option.map_some, joinCommentsFrom, kind_moved, if_neg hkind]
    exact ih

theorem joinArrayTypes_moved (ts : List Token) :
    joinArrayTypes (ts.map (moved f)) = (joinArrayTypes ts).map (moved f) := by
  fun_induction joinArrayTypes ts with
  | case1 a b c ts hkinds ih =>
    rw [List.map_cons, List.map_cons, List.map_cons, joinArrayTypes, List.map_cons, ← ih,
      ← merge_moved]
    exact if_pos hkinds
  | case2 a b c ts hkinds ih =>
    rw [List.map_cons, List.map_cons, List.map_cons, joinArrayTypes, List.map_cons, ← ih]
    exact if_neg hkinds
  | case3 t ts hshort ih =>
    rw [List.map_cons, joinArrayTypes, ih, List.map_cons]
    intro b c rest heq
    obtain ⟨b', ts', rfl, -, hts'⟩ := List.map_eq_cons_iff.mp heq
    obtain ⟨c', ts'', rfl, -, -⟩ := List.map_eq_cons_iff.mp hts'
    exact hshort b' c' ts'' rfl
  | case4 => rfl

theorem endStatementsAfter_moved (previous : Option Kind) (ts : List Token) :
    endStatementsAfter previous (ts.map (moved f)) =
      (endStatementsAfter previous ts).map (moved f) := by
  induction ts generalizing previous with
  | nil => rfl
  | cons t ts ih =>
    rw [List.map_cons, endStatementsAfter, endStatementsAfter, kind_moved]
    split
    · rw [ih, List.map_cons]
    · split
      · rw [ih, List.map_cons]
      · rw [ih, List.map_cons]
        rfl
    · rw [ih, List.map_cons]

theorem dropBlanks_moved (ts : List Token) :
    dropBlanks (ts.map (moved f)) = (dropBlanks ts).map (moved f) := by
  rw [dropBlanks, dropBlanks, List.filter_map]
  rfl

end Token

/-! ## Parsing -/

theorem Scope.diagnose_moved (scope : Scope) (ts : List Token) :
    scope.diagnose (ts.map (Token.moved f)) = scope.diagnose ts := by
  cases ts with
  | nil => rfl
  | cons t ts => cases ts <;> rfl

namespace Grammar

theorem missing_moved (what : String) (ts : List Token) :
    missing what (ts.map (Token.moved f)) = (missing what ts).moved f := by
  cases ts <;> rfl

theorem aliases_moved (ts : List Token) :
    aliases (ts.map (Token.moved f)) = (aliases ts).map (Token.moved f) := by
  fun_induction aliases ts with
  | case1 a b ts hkind ih =>
    rw [List.map_cons, List.map_cons, List.map_cons, aliases, Token.kind_moved, if_pos hkind,
      ← ih, List.map_cons]
  | case2 a b ts hkind ih =>
    rw [List.map_cons, List.map_cons, aliases, Token.kind_moved, if_neg hkind, ← ih,
      List.map_cons]
  | case3 ts hshort =>
    obtain _ | ⟨a, _ | ⟨b, ts⟩⟩ := ts
    · rfl
    · rfl
    · exact absurd rfl (hshort a b ts)

theorem readImport_moved (ts : List Token) :
    readImport (ts.map (Token.moved f)) =
      mapBoth (CompileError.moved f) (Node.moved f) (readImport ts) := by
  match ts with
  | [] | [_] => rfl
  | keyword :: name :: ts =>
    simp only [List.map_cons, readImport, aliases_moved]
    rcases aliases ts with _ | ⟨other, _ | ⟨extra, others⟩⟩ <;> rfl

theorem readComment_moved (ts : List Token) :
    readComment (ts.map (Token.moved f)) =
      mapBoth (CompileError.moved f) (Node.moved f) (readComment ts) := by
  cases ts <;> rfl

theorem readType_moved (t : Token) :
    readType (t.moved f) = mapBoth (CompileError.moved f) id (readType t) := by
  rw [readType, readType, Token.kind_moved]
  split <;> rfl

theorem readType_getLast_moved (t : Token) (ts : List Token) (n : Nat) :
    readType ((t.moved f :: (ts.map (Token.moved f)).take n).getLast (List.cons_ne_nil _ _)) =
      mapBoth (CompileError.moved f) id
        (readType ((t :: ts.take n).getLast (List.cons_ne_nil _ _))) := by
  rw [← readType_moved]
  simp only [← List.map_take, ← List.map_cons, List.getLast_map]

theorem readParams_moved (ts : List Token) :
    readParams (ts.map (Token.moved f)) = mapBoth (CompileError.moved f) id (readParams ts) := by
  have hmatch : ∀ ts : List Token, paramPattern.matchLength (ts.map (Token.moved f)) =
      paramPattern.matchLength ts := Pattern.matchLength_map Token.kind_moved paramPattern
  fun_induction readParams ts with
  | case1 => rw [List.map_nil, readParams]; rfl
  | case2 t ts n hn e htype =>
    rw [List.map_cons, readParams, ← List.map_cons, hmatch, hn]
    dsimp only
    rw [readType_getLast_moved, htype]
    rfl
  | case3 t ts n hn type htype ih =>
    rw [List.map_cons, readParams, ← List.map_cons, hmatch, hn]
    dsimp only
    rw [readType_getLast_moved, htype]
    dsimp only [mapBoth]
    rw [← List.map_drop, ih]
    apply map_mapBoth
    intro params
    rfl
  | case4 t ts hn hkind ih =>
    rw [List.map_cons, readParams, ← List.map_cons, hmatch, hn, Token.kind_moved, hkind]
    exact ih
  | case5 t ts hn hkind ih =>
    rw [List.map_cons, readParams, ← List.map_cons, hmatch, hn, Token.kind_moved, hkind]
    exact ih
  | case6 t ts hn hcomma hsemicolon =>
    rw [List.map_cons, readParams, ← List.map_cons, hmatch, hn, Token.kind_moved]
    dsimp only
    split
    case h_1 hkind => exact absurd hkind hcomma
    case h_2 hkind => exact absurd hkind hsemicolon
    case h_3 => rfl

theorem readCommand_moved (ts : List Token) :
    readCommand (ts.map (Token.moved f)) =
      mapBoth (CompileError.moved f) (Command.moved f) (readCommand ts) := by
  match ts with
  | [] | [_] => rfl
  | name :: opener :: ts =>
    rw [List.map_cons, List.map_cons, readCommand, readCommand, Token.kind_moved]
    split
    · simp only [List.takeWhile_map, List.filter_map, List.map_map]
      rfl
    · rw [← List.map_cons, missing_moved]
      rfl

theorem readInvocation_moved (ts : List Token) :
    readInvocation (ts.map (Token.moved f)) =
      mapBoth (CompileError.moved f) (Node.moved f) (readInvocation ts) := by
  rw [readInvocation, readInvocation, ← List.map_tail, readCommand_moved]
  apply map_mapBoth
  intro command
  rfl

theorem readReturnType_moved (name : String) (ts : List Token) :
    readReturnType name (ts.map (Token.moved f)) =
      mapBoth (CompileError.moved f) id (readReturnType name ts) := by
  match ts with
  | [] | _ :: _ :: _ => rfl
  | [t] =>
    rw [List.map_singleton, readReturnType, readReturnType, readType_moved]
    apply map_mapBoth
    intro type
    rfl

theorem slice?_moved (ts : List Token) (start stop : Nat) :
    slice? (ts.map (Token.moved f)) start stop =
      (slice? ts start stop).map (List.map (Token.moved f)) := by
  rw [slice?, slice?, List.length_map]
  split
  · rw [Option.map_some, List.map_drop, List.map_take]
  · rfl

/-- Reads a declaration from the parenthesis that closes its parameters on. -/
def readBehind (name : Token) (params : List Param) (behind : List Token) :
    Except CompileError Declaration :=
  let brace := behind.findIdx fun t => t.kind = .openBrace
  match behind.drop brace with
  | [] => .error (missing "`\x7b`" behind)
  | opener :: body =>
    match slice? behind 2 brace with
    | none => .error (missing "`:` before the function body" behind)
    | some declared => (readReturnType name.text declared).bind fun returnType =>
      match Pattern.matchBlock .openBrace .closeBrace (opener :: body) with
      | none => .error (faultAt opener (.unclosedBody name.text))
      | some n => .ok ⟨⟨name.text, params, returnType, name.position⟩, opener, body.take (n - 2)⟩

theorem readDeclaration_cons (name : Token) (rest : List Token) :
    readDeclaration (name :: rest) =
      let close := (name :: rest).findIdx fun t => t.kind = .closeParen
      if close = (name :: rest).length then .error (missing "`)`" (name :: rest))
      else match slice? (name :: rest) 3 close with
        | none => .error (missing "`(`" (name :: rest))
        | some inside => (readParams inside).bind fun params =>
          readBehind name params ((name :: rest).drop close) := by
  unfold readDeclaration
  dsimp only
  split
  · rfl
  · cases slice? (name :: rest) 3
      ((name :: rest).findIdx fun t => decide (t.kind = .closeParen)) with
    | none => rfl
    | some inside =>
      refine congrArg (Except.bind _) (funext fun params => ?_)
      unfold readBehind
      generalize (name :: rest).drop _ = behind
      dsimp only
      cases behind.drop (behind.findIdx fun t => decide (t.kind = .openBrace)) with
      | nil => rfl
      | cons opener body =>
        cases slice? behind 2 (behind.findIdx fun t => decide (t.kind = .openBrace)) <;> rfl

theorem findIdx_kind_moved (kind : Token.Kind) (ts : List Token) :
    (ts.map (Token.moved f)).findIdx (fun t => t.kind = kind) =
      ts.findIdx fun t => t.kind = kind := by
  rw [List.findIdx_map]
  rfl

theorem readBehind_moved (name : Token) (params : List Param) (behind : List Token) :
    readBehind (name.moved f) params (behind.map (Token.moved f)) =
      mapBoth (CompileError.moved f) (Declaration.moved f) (readBehind name params behind) := by
  simp only [readBehind, findIdx_kind_moved, ← List.map_drop, slice?_moved]
  cases behind.drop (behind.findIdx fun t => decide (t.kind = .openBrace)) with
  | nil => exact congrArg Except.error (missing_moved _ behind)
  | cons opener body =>
    cases slice? behind 2 (behind.findIdx fun t => decide (t.kind = .openBrace)) with
    | none => exact congrArg Except.error (missing_moved _ behind)
    | some declared =>
      have hblock := Pattern.matchBlock_map (@Token.kind_moved f) .openBrace .closeBrace
        (opener :: body)
      dsimp only [List.map_cons, Option.map_some]
      rw [Token.text_moved, readReturnType_moved]
      apply bind_mapBoth
      intro returnType
      rw [List.map_cons] at hblock
      rw [hblock]
      cases Pattern.matchBlock .openBrace .closeBrace (opener :: body) with
      | none => rfl
      | some n =>
        dsimp only
        rw [← List.map_take]
        rfl

theorem readDeclaration_moved (ts : List Token) :
    readDeclaration (ts.map (Token.moved f)) =
      mapBoth (CompileError.moved f) (Declaration.moved f) (readDeclaration ts) := by
  cases ts with
  | nil => rfl
  | cons name rest =>
    rw [List.map_cons, readDeclaration_cons, readDeclaration_cons, ← List.map_cons]
    simp only [findIdx_kind_moved, List.length_map, slice?_moved]
    split
    · exact congrArg Except.error (missing_moved _ (name :: rest))
    · cases slice? (name :: rest) 3
        ((name :: rest).findIdx fun t => decide (t.kind = .closeParen)) with
      | none => exact congrArg Except.error (missing_moved _ (name :: rest))
      | some inside =>
        dsimp only [Option.map_some]
        rw [readParams_moved]
        apply bind_mapBoth
        intro params
        rw [← List.map_drop]
        exact readBehind_moved name params _

end Grammar

namespace Builder

theorem importing_follows :
    Rule.Follows (Token.moved f) (Node.moved f) (CompileError.moved f) .importing .importing :=
  ⟨rfl, Grammar.readImport_moved⟩

theorem comment_follows :
    Rule.Follows (Token.moved f) (Node.moved f) (CompileError.moved f) .comment .comment :=
  ⟨rfl, Grammar.readComment_moved⟩

theorem body_follows :
    List.Forall₂ (Rule.Follows (Token.moved f) (Node.moved f) (CompileError.moved f)) Rule.body
      Rule.body :=
  .cons ⟨rfl, Grammar.readInvocation_moved⟩ (.cons comment_follows .nil)

theorem result_nodesBy_moved {rules : List Rule} (hrules : List.Forall₂
      (Rule.Follows (Token.moved f) (Node.moved f) (CompileError.moved f)) rules rules)
    (scope : Scope) (lenient : Bool) (offset : Nat) (ts : List Token) :
    (nodesBy scope lenient rules offset (ts.map (Token.moved f))).result =
      mapBoth (CompileError.moved f) (List.map (Node.moved f))
        (nodesBy scope lenient rules offset ts).result := by
  refine result_nodesBy_follows Token.kind_moved hrules (fun t ts => ?_) lenient offset ts
  rw [Scope.diagnose_moved]
  rfl

theorem result_buildFunction_moved (b : Builder) (ts : List Token) :
    (b.buildFunction (ts.map (Token.moved f))).result =
      mapBoth (CompileError.moved f) (Node.moved f) (b.buildFunction ts).result := by
  rw [result_buildFunction, result_buildFunction, Grammar.readDeclaration_moved]
  apply bind_mapBoth
  intro declaration
  split
  · dsimp only [Grammar.Declaration.moved]
    rw [result_nodesBy_moved body_follows]
    apply map_mapBoth
    intro body
    exact (Node.moved_function _ body).symm
  · rfl

theorem result_build_moved (b : Builder) (ts : List Token) :
    (b.build (ts.map (Token.moved f))).result =
      mapBoth (CompileError.moved f) (Program.moved f) (b.build ts).result := by
  have hrules : List.Forall₂
      (Rule.Follows (Token.moved f) (Node.moved f) (CompileError.moved f)) b.rules b.rules := by
    rw [rules]
    cases b.scope with
    | topLevel =>
      exact .cons importing_follows (.cons comment_follows
        (.cons ⟨rfl, b.result_buildFunction_moved⟩ .nil))
    | functionBody => exact body_follows
  rw [build, build, result_buildBy, result_buildBy, result_nodesBy_moved hrules]
  apply map_mapBoth
  intro nodes
  rfl

end Builder

/-! ## Resolution -/

theorem Import.lookup_moved (imports : List Import) (command : String) :
    lookup (imports.map (moved f)) command = lookup imports command := by
  rw [lookup, lookup, List.findSome?_map]
  rfl

namespace Node

theorem imports_moved (node : Node) :
    (node.moved f).imports = node.imports.map (Import.moved f) := by
  induction node with
  | root children ih =>
    rw [moved_root, imports_root, imports_root, List.flatMap_map, List.map_flatMap]
    exact List.flatMap_congr ih
  | function signature body ih =>
    rw [moved_function, imports_function, imports_function, List.flatMap_map, List.map_flatMap]
    exact List.flatMap_congr ih
  | importing | param | invocation | expression | comment => rfl

end Node

theorem Program.imports_moved (program : Program) :
    (program.moved f).imports = program.imports.map (Import.moved f) := by
  rw [imports, imports, moved, Node.importsAmong_eq, Node.importsAmong_eq, List.flatMap_map,
    List.map_flatMap]
  exact List.flatMap_congr fun node _ => node.imports_moved

/-- Resolution of something moved ends as resolution of the thing does, moved. -/
structure Resolved.Moves {α : Type} (f : Position → Position) (m : α → α) (r r' : Resolved α) :
    Prop where
  tree : r'.tree = m r.tree
  failure : r'.failure = r.failure.map (CompileError.moved f)

theorem Resolved.Moves.map {α β : Type} {m : α → α} {n : β → β} {g g' : α → β}
    {r r' : Resolved α} (h : r.Moves f m r') (hg : ∀ a, g' (m a) = n (g a)) :
    (r.map g).Moves f n (r'.map g') := by
  refine ⟨?_, h.failure⟩
  rw [Resolved.map, Resolved.map, h.tree, hg]

theorem Command.resolve_moves (imports : List Import) (command : Command) :
    (command.resolve imports).Moves f (Command.moved f)
      ((command.moved f).resolve (imports.map (Import.moved f))) := by
  have hlookup := Import.lookup_moved imports command.name (f := f)
  rw [resolve, resolve, show (command.moved f).name = command.name from rfl, hlookup]
  rcases Import.lookup imports command.name with _ | _ | name <;> exact ⟨rfl, rfl⟩

namespace Node

theorem resolveAll_moves {imports : List Import} {nodes : List Node}
    (h : ∀ node ∈ nodes, (node.resolve imports).Moves f (moved f)
      ((node.moved f).resolve (imports.map (Import.moved f)))) :
    (resolveAll imports nodes).Moves f (List.map (moved f))
      (resolveAll (imports.map (Import.moved f)) (nodes.map (moved f))) := by
  induction nodes with
  | nil => exact ⟨rfl, rfl⟩
  | cons node rest ih =>
    obtain ⟨hfirst, hrest⟩ := List.forall_mem_cons.mp h
    obtain ⟨htree, hfailure⟩ := hfirst
    rw [List.map_cons, resolveAll, resolveAll]
    dsimp only
    rw [hfailure, htree]
    cases (node.resolve imports).failure with
    | some e => exact ⟨rfl, rfl⟩
    | none =>
      obtain ⟨htrees, hfailures⟩ := ih hrest
      refine ⟨?_, hfailures⟩
      exact congrArg _ htrees

theorem resolve_moves (imports : List Import) (node : Node) :
    (node.resolve imports).Moves f (moved f)
      ((node.moved f).resolve (imports.map (Import.moved f))) := by
  induction node with
  | root children ih =>
    rw [moved_root, resolve, resolve]
    exact (resolveAll_moves ih).map fun children => (moved_root children).symm
  | function signature body ih =>
    rw [moved_function, resolve, resolve]
    exact (resolveAll_moves ih).map fun body => (moved_function signature body).symm
  | invocation command => exact (command.resolve_moves imports).map fun _ => rfl
  | expression command => exact (command.resolve_moves imports).map fun _ => rfl
  | importing | param | comment => exact ⟨rfl, rfl⟩

end Node

theorem Program.result_resolve_moved (program : Program) :
    (program.moved f).resolve.toRun.result =
      mapBoth (CompileError.moved f) (Program.moved f) program.resolve.toRun.result := by
  have hmoves : program.resolve.Moves f (Program.moved f) (program.moved f).resolve := by
    have hchildren := Node.resolveAll_moves fun node (_ : node ∈ program.children) =>
      node.resolve_moves (f := f) program.imports
    rw [← imports_moved] at hchildren
    exact ⟨congrArg Program.mk hchildren.tree, hchildren.failure⟩
  rw [Resolved.toRun, Resolved.toRun, hmoves.tree, hmoves.failure]
  cases program.resolve.failure <;> rfl

/-! ## Generation -/

namespace Node

theorem moved_ne_function {node : Node}
    (h : ∀ signature body, node = function signature body → False) (signature : Signature)
    (body : List Node) : node.moved f = function signature body → False := by
  cases node with
  | function signature body => exact absurd rfl (h signature body)
  | _ => nofun

theorem describe_moved (node : Node) : (node.moved f).describe = node.describe := by
  cases node <;> rfl

end Node

namespace Script

theorem within_moved {α : Type} {node : Node} {x y : Except CompileError α}
    (h : y = mapBoth (CompileError.moved f) id x) :
    within (node.moved f) y = mapBoth (CompileError.moved f) id (within node x) := by
  subst h
  rw [within, within, Node.describe_moved]
  cases x <;> rfl

theorem emitAll_moved {indent : String} {level : Nat} {nodes : List Node}
    (h : ∀ node ∈ nodes, emit indent level (node.moved f) =
      mapBoth (CompileError.moved f) id (emit indent level node)) :
    emitAll indent level (nodes.map (Node.moved f)) =
      mapBoth (CompileError.moved f) id (emitAll indent level nodes) := by
  induction nodes with
  | nil => rfl
  | cons node rest ih =>
    obtain ⟨hfirst, hrest⟩ := List.forall_mem_cons.mp h
    rw [List.map_cons, emitAll, emitAll, within_moved hfirst]
    cases within node (emit indent level node) with
    | error e => rfl
    | ok lines =>
      dsimp only [mapBoth]
      rw [ih hrest]
      apply map_mapBoth
      intro others
      rfl

/-- Nothing is written differently for a moved node. -/
theorem emit_moved (indent : String) (level : Nat) (node : Node) :
    emit indent level (node.moved f) =
      mapBoth (CompileError.moved f) id (emit indent level node) := by
  induction node generalizing level with
  | function signature body ih =>
    rw [Node.moved_function, emit, emit, emitAll_moved fun node hmem => ih node hmem (level + 1)]
    apply map_mapBoth
    intro lines
    rfl
  | root children => rw [Node.moved_root, emit, emit]; rfl
  | importing | param | invocation | expression | comment => rfl

theorem clash?_moved (implicit : List String) (imports : List Import) (helpers : List String)
    (name : String) :
    clash? implicit (imports.map (Import.moved f)) helpers name =
      clash? implicit imports helpers name := by
  rw [clash?, clash?, Import.lookup_moved]

def Outline.moved (f : Position → Position) (top : Outline) : Outline :=
  { top with main := top.main.map (List.map (Node.moved f)) }

theorem emitOutermost_moved (indent : String) (node : Node) :
    emitOutermost indent (node.moved f) =
      mapBoth (CompileError.moved f) id (emitOutermost indent node) :=
  within_moved (emit_moved indent 0 node)

theorem outline_moved (options : Options) (imports : List Import) (helpers : List String)
    (main : Option (List Node)) (nodes : List Node) :
    outline options (imports.map (Import.moved f)) helpers
        (main.map (List.map (Node.moved f))) (nodes.map (Node.moved f)) =
      mapBoth (CompileError.moved f) (Outline.moved f)
        (outline options imports helpers main nodes) := by
  fun_induction outline options imports helpers main nodes with
  | case1 => rfl
  | case2 helpers main signature body nodes hname hmain =>
    rw [List.map_cons, Node.moved_function, outline, Signature.name_moved, if_pos hname,
      Option.isSome_map, if_pos hmain]
    rfl
  | case3 helpers main signature body nodes hname hmain ih =>
    rw [List.map_cons, Node.moved_function, outline, Signature.name_moved, if_pos hname,
      Option.isSome_map, if_neg hmain]
    exact ih
  | case4 helpers main signature body nodes hname clash hclash =>
    rw [List.map_cons, Node.moved_function, outline, Signature.name_moved, if_neg hname,
      clash?_moved, hclash]
    rfl
  | case5 helpers main signature body nodes hname hclash e he =>
    rw [List.map_cons, Node.moved_function, outline, Signature.name_moved, if_neg hname,
      clash?_moved, hclash, ← Node.moved_function, emitOutermost_moved, he]
    rfl
  | case6 helpers main signature body nodes hname hclash lines hlines ih =>
    rw [List.map_cons, Node.moved_function, outline, Signature.name_moved, if_neg hname,
      clash?_moved, hclash, ← Node.moved_function, emitOutermost_moved, hlines]
    dsimp only [mapBoth]
    rw [ih]
    apply map_mapBoth
    intro rest
    rfl
  | case7 helpers main node nodes hnode e he =>
    rw [List.map_cons, outline, emitOutermost_moved, he]
    · rfl
    · exact Node.moved_ne_function hnode
  | case8 helpers main node nodes hnode lines hlines ih =>
    rw [List.map_cons, outline, emitOutermost_moved, hlines]
    · dsimp only [mapBoth]
      rw [ih]
      apply map_mapBoth
      intro rest
      dsimp only [id]
      split <;> rfl
    · exact Node.moved_ne_function hnode

theorem guardSections_moved (options : Options) (imports : List Import) :
    guardSections options (imports.map (Import.moved f)) =
      mapBoth (CompileError.moved f) id (guardSections options imports) := by
  have hnames : guardedNames options.implicit (imports.map (Import.moved f)) =
      guardedNames options.implicit imports := by
    rw [guardedNames, guardedNames, List.map_map]
    rfl
  have hsame : guardSections options (imports.map (Import.moved f)) =
      guardSections options imports := by
    rw [guardSections, guardSections, hnames]
  rw [hsame, guardSections_eq]
  split <;> rfl

theorem judged_moved (valid : String → Bool) (options : Options) (script : String) :
    judged valid options script =
      mapBoth (CompileError.moved f) id (judged valid options script) := by
  rw [judged]
  split <;> rfl

theorem mainSections_moved (indent : String) (body? : Option (List Node)) :
    mainSections indent (body?.map (List.map (Node.moved f))) =
      mapBoth (CompileError.moved f) id (mainSections indent body?) := by
  cases body? with
  | none => rfl
  | some body =>
    rw [Option.map_some, mainSections, mainSections, mainSection, mainSection,
      emitAll_moved fun node _ => emit_moved indent 0 node]
    cases emitAll indent 0 body <;> rfl

theorem result_generateBy_moved (valid : String → Bool) (options : Options) (program : Program) :
    (generateBy valid options (program.moved f)).result =
      mapBoth (CompileError.moved f) id (generateBy valid options program).result := by
  rw [result_generateBy, result_generateBy, Program.imports_moved, guardSections_moved]
  apply bind_mapBoth
  intro guards
  have houtline := @outline_moved f options program.imports [] none program.children
  rw [Option.map_none] at houtline
  rw [Program.moved, houtline]
  apply bind_mapBoth
  intro top
  rw [Outline.moved, mainSections_moved]
  apply bind_mapBoth
  intro main
  exact judged_moved valid options _

end Script

/-! ## Sources -/

theorem Position.after_of_advance (hadvance : ∀ p c, (f p).advance c = f (p.advance c))
    (p : Position) (cs : List Char) : (f p).after cs = f (p.after cs) := by
  induction cs generalizing p with
  | nil => rfl
  | cons c cs ih => rw [after_cons, after_cons, hadvance, ih]

namespace Token

/-- Where moving and advancing can change places, a text that starts at a moved position has its
tokens moved. -/
theorem place_of_advance (hadvance : ∀ p c, (f p).advance c = f (p.advance c)) (p : Position)
    (pieces : List (List Char)) :
    (Fragment.place (f p) pieces).map (ofFragment Rule.standard) =
      ((Fragment.place p pieces).map (ofFragment Rule.standard)).map (moved f) := by
  induction pieces generalizing p with
  | nil => rfl
  | cons piece pieces ih =>
    rw [Fragment.place, List.map_cons, Position.after_of_advance hadvance, ih, Fragment.place]
    rfl

/-- The passes over strings and comments. -/
def group (ts : List Token) : Except CompileError (List Token) :=
  (joinStrings ts).map joinComments

/-- All passes. -/
def layOut (ts : List Token) : Except CompileError (List Token) :=
  (group ts).map fun ts => dropBlanks (endStatements (joinArrayTypes ts))

theorem group_moved (ts : List Token) :
    group (ts.map (moved f)) = mapBoth (CompileError.moved f) (List.map (moved f)) (group ts) := by
  have hstrings : joinStrings (ts.map (moved f)) =
      mapBoth (CompileError.moved f) (List.map (moved f)) (joinStrings ts) :=
    joinStringsFrom_moved none [] ts
  rw [group, group, hstrings]
  apply map_mapBoth
  intro joined
  exact joinCommentsFrom_moved none [] joined

theorem layOut_moved (ts : List Token) :
    layOut (ts.map (moved f)) =
      mapBoth (CompileError.moved f) (List.map (moved f)) (layOut ts) := by
  rw [layOut, layOut, group_moved]
  apply map_mapBoth
  intro grouped
  rw [joinArrayTypes_moved, endStatements, endStatementsAfter_moved, dropBlanks_moved]
  rfl

end Token

namespace Compiler

theorem result_tokens_eq_layOut (file : Option String) (source : String) :
    (tokens file source).result = Token.layOut
      ((Fragment.ofSource file source).map (Token.ofFragment Token.Rule.standard)) := by
  rw [result_tokens, Token.layOut, Token.group]
  cases Token.joinStrings _ <;> rfl

theorem result_parse (config : Config) (file : Option String) (source : String) :
    (parse config file source).result = (tokens file source).result.bind fun ts =>
      (({ options := config.buildOptions } : Builder).build ts).result := by
  rw [parse, Run.result_bind]

/-- The script of tokens, without the log. -/
def scriptOf (valid : String → Bool) (config : Config) (ts : List Token) :
    Except CompileError String :=
  (({ options := config.buildOptions } : Builder).build ts).result.bind fun program =>
    program.resolve.toRun.result.bind fun resolved =>
      (Script.generateBy valid config.scriptOptions resolved).result

theorem result_compileBy (valid : String → Bool) (config : Config) (file : Option String)
    (source : String) :
    (compileBy valid config file source).result =
      (tokens file source).result.bind (scriptOf valid config) := by
  rw [compileBy, parse, Run.result_bind, Run.result_bind]
  cases (tokens file source).result with
  | error e => rfl
  | ok ts =>
    refine congrArg (Except.bind _) (funext fun program => ?_)
    rw [Run.result_bind]

theorem scriptOf_moved (valid : String → Bool) (config : Config) (ts : List Token) :
    scriptOf valid config (ts.map (Token.moved f)) =
      mapBoth (CompileError.moved f) id (scriptOf valid config ts) := by
  rw [scriptOf, scriptOf, Builder.result_build_moved]
  apply bind_mapBoth
  intro program
  rw [Program.result_resolve_moved]
  apply bind_mapBoth
  intro resolved
  exact Script.result_generateBy_moved valid config.scriptOptions resolved

/-- Sources whose tokens differ in positions only have the same script, or errors that differ in
positions only. -/
theorem result_compileBy_moved {file file' : Option String} {source source' : String}
    (h : mapBoth (CompileError.moved f) (List.map (Token.moved f)) (tokens file source).result =
      mapBoth (CompileError.moved f) (List.map (Token.moved f)) (tokens file' source').result)
    (valid : String → Bool) (config : Config) :
    mapBoth (CompileError.moved f) id (compileBy valid config file source).result =
      mapBoth (CompileError.moved f) id (compileBy valid config file' source').result := by
  rw [result_compileBy, result_compileBy, ← bind_mapBoth (scriptOf_moved valid config), h,
    bind_mapBoth (scriptOf_moved valid config)]

end Compiler

end CheckedScript
