import CheckedScript.Proofs.Compilation
import CheckedScript.Proofs.Grouping

/-!
Comments leave no trace. A comment taken out of a source takes one token out of the tokens, with
the semicolon that its line end became, or it makes the comment shorter that it stands in. What is
left has a derivation if there was one, with the same nodes but for comments, and so the same
script.

Main results:
* `Token.exists_layOut_uncommented`: the tokens without the comment.
* `Compiler.script_without_comment`: a source that has a script has the same one without a comment.

Only strict building and sources that have a script are considered, and comments without quotes.
-/

namespace CheckedScript

open Grammar Token

/-! ## Tokens without a comment -/

/-- In place of one comment, with semicolons behind it, the tokens `us` have other comments and
semicolons, or nothing. -/
inductive Uncommented : List Token → List Token → Prop
  | here {t : Token} {ends others back : List Token} (kind : t.kind = .comment)
      (ends_kind : Semicolons ends)
      (others_kind : ∀ s ∈ others, s.kind = .comment ∨ s.kind = .semicolon) :
      Uncommented (t :: (ends ++ back)) (others ++ back)
  | there {s : Token} {ts us : List Token} (rest : Uncommented ts us) :
      Uncommented (s :: ts) (s :: us)

namespace Uncommented

theorem behind (front : List Token) {ts us : List Token} (h : Uncommented ts us) :
    Uncommented (front ++ ts) (front ++ us) := by
  induction front with
  | nil => exact h
  | cons s front ih => exact .there ih

theorem cons_inv {s : Token} {ts us : List Token} (h : Uncommented (s :: ts) us)
    (hs : s.kind ≠ .comment) : ∃ us', us = s :: us' ∧ Uncommented ts us' := by
  cases h with
  | here hkind => exact absurd hkind hs
  | there hrest => exact ⟨_, rfl, hrest⟩

/-- Tokens that are no comments stay in front. -/
theorem append_inv_of_ne {front ts us : List Token} (h : Uncommented (front ++ ts) us)
    (hfront : ∀ s ∈ front, s.kind ≠ .comment) : ∃ us', us = front ++ us' ∧ Uncommented ts us' := by
  induction front generalizing us with
  | nil => exact ⟨us, rfl, h⟩
  | cons s front ih =>
    obtain ⟨hs, hfront⟩ := List.forall_mem_cons.mp hfront
    obtain ⟨us', rfl, hothers⟩ := h.cons_inv hs
    obtain ⟨us'', rfl, hrest⟩ := ih hothers hfront
    exact ⟨us'', rfl, hrest⟩

/-- Semicolons at the front do not reach over another token. -/
theorem semicolons_append_inv {ends back front rest : List Token} {s : Token}
    (h : ends ++ back = front ++ s :: rest) (hends : Semicolons ends)
    (hs : s.kind ≠ .semicolon) :
    ∃ between, front = ends ++ between ∧ back = between ++ s :: rest := by
  obtain ⟨between, rfl, hback⟩ | ⟨between, rfl, hrest⟩ := List.append_eq_append_iff.mp h
  · exact ⟨between, rfl, hback⟩
  · cases between with
    | nil => exact ⟨[], by simp, by simpa using hrest.symm⟩
    | cons t between =>
      obtain ⟨rfl, -⟩ := List.cons.inj hrest
      exact absurd (hends s (by simp)) hs

/-- A token that is neither comment nor semicolon parts what changes from what does not. -/
theorem append_inv {front back us : List Token} {s : Token}
    (h : Uncommented (front ++ s :: back) us) (hcomment : s.kind ≠ .comment)
    (hsemicolon : s.kind ≠ .semicolon) :
    (∃ front', us = front' ++ s :: back ∧ Uncommented front front') ∨
      ∃ back', us = front ++ s :: back' ∧ Uncommented back back' := by
  induction front generalizing us with
  | nil =>
    obtain ⟨back', rfl, hback⟩ := h.cons_inv hcomment
    exact .inr ⟨back', rfl, hback⟩
  | cons t front ih =>
    generalize hts : t :: front ++ s :: back = ts at h
    cases h with
    | @here t' ends others rest hkind hends hothers =>
      obtain ⟨rfl, hrest⟩ := List.cons.inj hts
      obtain ⟨between, rfl, rfl⟩ := semicolons_append_inv hrest.symm hends hsemicolon
      exact .inl ⟨others ++ between, by simp, .here hkind hends hothers⟩
    | @there t' ts us hrest =>
      obtain ⟨rfl, rfl⟩ := List.cons.inj hts
      obtain ⟨front', rfl, hfront⟩ | ⟨back', rfl, hback⟩ := ih hrest
      · exact .inl ⟨t :: front', rfl, .there hfront⟩
      · exact .inr ⟨back', rfl, hback⟩

/-- All that is neither comment nor semicolon stays. -/
theorem filter_eq {ts us : List Token} (h : Uncommented ts us) :
    ts.filter (fun t => t.kind ≠ .comment ∧ t.kind ≠ .semicolon) =
      us.filter (fun t => t.kind ≠ .comment ∧ t.kind ≠ .semicolon) := by
  induction h with
  | @here t ends others back hkind hends hothers =>
    have hnone : ∀ ds : List Token, (∀ s ∈ ds, s.kind = .comment ∨ s.kind = .semicolon) →
        ds.filter (fun t => t.kind ≠ .comment ∧ t.kind ≠ .semicolon) = [] := by
      intro ds hds
      refine List.filter_eq_nil_iff.mpr fun s hs => ?_
      obtain hs | hs := hds s hs
      · simp [hs]
      · simp [hs]
    rw [List.filter_cons_of_neg (by simp [hkind]), List.filter_append, List.filter_append,
      hnone ends fun s hs => .inr (hends s hs), hnone others hothers]
  | @there s ts us _ ih => rw [List.filter_cons, List.filter_cons, ih]

theorem arguments_eq {ts us : List Token} (h : Uncommented ts us) :
    arguments ts = arguments us := by
  have hfilter : ∀ ds : List Token, arguments ds =
      ((ds.filter fun t => t.kind ≠ .comment ∧ t.kind ≠ .semicolon).filter
        fun t => t.kind ≠ .comma).map (·.text) := by
    intro ds
    rw [arguments, List.filter_filter]
    congr 2
    funext t
    rw [Bool.eq_iff_iff]
    simp
    tauto
  rw [hfilter, hfilter, h.filter_eq]

theorem forall_kind_ne {ts us : List Token} (h : Uncommented ts us) {kind : Kind}
    (hcomment : kind ≠ .comment) (hsemicolon : kind ≠ .semicolon)
    (hts : ∀ t ∈ ts, t.kind ≠ kind) : ∀ t ∈ us, t.kind ≠ kind := by
  intro t ht hkind
  have hmem : t ∈ us.filter fun t => t.kind ≠ .comment ∧ t.kind ≠ .semicolon := by
    simp [ht, hkind, hcomment, hsemicolon]
  rw [← h.filter_eq] at hmem
  exact hts t (List.mem_filter.mp hmem).1 hkind

end Uncommented

/-- What is neither opener nor closer does not matter for the balance. -/
theorem Pattern.balanced_filter {opener closer : Kind} {p : Kind → Bool} (hopener : p opener = true)
    (hcloser : p closer = true) {kinds : List Kind} :
    Balanced opener closer (kinds.filter p) ↔ Balanced opener closer kinds := by
  have hcount : ∀ ks : List Kind, (ks.filter p).count opener = ks.count opener ∧
      (ks.filter p).count closer = ks.count closer :=
    fun ks => ⟨List.count_filter hopener, List.count_filter hcloser⟩
  constructor
  · intro h
    refine ⟨fun front hfront => ?_, ?_⟩
    · have hle := h.front _ (hfront.filter p)
      rw [(hcount front).1, (hcount front).2] at hle
      exact hle
    · have hwhole := h.whole
      rw [(hcount kinds).1, (hcount kinds).2] at hwhole
      exact hwhole
  · intro h
    refine ⟨fun front hfront => ?_, ?_⟩
    · obtain ⟨rest, hrest⟩ := hfront
      obtain ⟨before, after, rfl, rfl, -⟩ := List.filter_eq_append_iff.mp hrest.symm
      rw [(hcount before).1, (hcount before).2]
      exact h.front before (List.prefix_append before after)
    · rw [(hcount kinds).1, (hcount kinds).2]
      exact h.whole

theorem Uncommented.balanced {ts us : List Token} (h : Uncommented ts us)
    (hts : Pattern.Balanced .openBrace .closeBrace (ts.map (·.kind))) :
    Pattern.Balanced .openBrace .closeBrace (us.map (·.kind)) := by
  have hkinds : ∀ ds : List Token,
      (ds.map (·.kind)).filter (fun k => k ≠ .comment ∧ k ≠ .semicolon) =
        (ds.filter fun t => t.kind ≠ .comment ∧ t.kind ≠ .semicolon).map (·.kind) := by
    intro ds
    rw [List.filter_map]
    rfl
  rw [← Pattern.balanced_filter (p := fun k => k ≠ .comment ∧ k ≠ .semicolon) (by decide)
    (by decide), hkinds] at hts ⊢
  rw [← h.filter_eq]
  exact hts

/-! ## Trees without comments -/

namespace Node

mutual

/-- The tree without the comments below it. -/
def uncommented : Node → Node
  | root children => root (uncommentedAmong children)
  | function signature body => function signature (uncommentedAmong body)
  | importing declaration => importing declaration
  | param declaration => param declaration
  | invocation command => invocation command
  | expression command => expression command
  | comment text => comment text

def uncommentedAmong : List Node → List Node
  | [] => []
  | comment _ :: rest => uncommentedAmong rest
  | node :: rest => node.uncommented :: uncommentedAmong rest

end

theorem uncommentedAmong_cons {node : Node} (h : ∀ text, node ≠ comment text) (nodes : List Node) :
    uncommentedAmong (node :: nodes) = node.uncommented :: uncommentedAmong nodes := by
  cases node with
  | comment text => exact absurd rfl (h text)
  | _ => rw [uncommentedAmong]; nofun

theorem uncommentedAmong_append (nodes others : List Node) :
    uncommentedAmong (nodes ++ others) = uncommentedAmong nodes ++ uncommentedAmong others := by
  induction nodes with
  | nil => rfl
  | cons node nodes ih =>
    by_cases hother : ∀ text, node ≠ comment text
    · rw [List.cons_append, uncommentedAmong_cons hother, uncommentedAmong_cons hother, ih,
        List.cons_append]
    · obtain ⟨text, htext⟩ := not_forall_not.mp hother
      rw [htext]
      exact ih

/-- What is collected from a tree, and not from comments, can be collected without them. -/
theorem flatMap_uncommentedAmong {α : Type} {f : Node → List α}
    (hcomment : ∀ text, f (comment text) = []) {nodes : List Node}
    (h : ∀ node ∈ nodes, f node.uncommented = f node) :
    (uncommentedAmong nodes).flatMap f = nodes.flatMap f := by
  induction nodes with
  | nil => rfl
  | cons node nodes ih =>
    obtain ⟨hnode, hnodes⟩ := List.forall_mem_cons.mp h
    by_cases hother : ∀ text, node ≠ comment text
    · rw [uncommentedAmong_cons hother, List.flatMap_cons, List.flatMap_cons, hnode, ih hnodes]
    · obtain ⟨text, htext⟩ := not_forall_not.mp hother
      rw [htext, uncommentedAmong, ih hnodes, List.flatMap_cons, hcomment, List.nil_append]

theorem imports_uncommented (node : Node) : node.uncommented.imports = node.imports := by
  induction node with
  | root children ih =>
    rw [uncommented, imports_root, imports_root]
    exact flatMap_uncommentedAmong (fun _ => rfl) ih
  | function signature body ih =>
    rw [uncommented, imports_function, imports_function]
    exact flatMap_uncommentedAmong (fun _ => rfl) ih
  | importing | param | invocation | expression | comment => rfl

theorem commands_uncommented (node : Node) : node.uncommented.commands = node.commands := by
  induction node with
  | root children ih =>
    rw [uncommented, commands_root, commands_root]
    exact flatMap_uncommentedAmong (fun _ => rfl) ih
  | function signature body ih =>
    rw [uncommented, commands_function, commands_function]
    exact flatMap_uncommentedAmong (fun _ => rfl) ih
  | importing | param | invocation | expression | comment => rfl

theorem lines_uncommented (level : Nat) (node : Node) :
    node.uncommented.lines level = node.lines level := by
  induction node generalizing level with
  | root children ih =>
    rw [uncommented, lines, lines, linesAmong_eq, linesAmong_eq]
    exact flatMap_uncommentedAmong (fun _ => rfl) fun node hnode => ih node hnode level
  | function signature body ih =>
    rw [uncommented, lines, lines, linesAmong_eq, linesAmong_eq]
    exact congrArg _ (flatMap_uncommentedAmong (fun _ => rfl) fun node hnode =>
      ih node hnode (level + 1))
  | importing | param | invocation | expression | comment => rfl

theorem uncommentedAmong_map {f : Command → Command} {nodes : List Node}
    (h : ∀ node ∈ nodes, (node.mapCommands f).uncommented = node.uncommented.mapCommands f) :
    uncommentedAmong (nodes.map (mapCommands f)) =
      (uncommentedAmong nodes).map (mapCommands f) := by
  induction nodes with
  | nil => rfl
  | cons node nodes ih =>
    obtain ⟨hnode, hnodes⟩ := List.forall_mem_cons.mp h
    by_cases hother : ∀ text, node ≠ comment text
    · have hmapped : ∀ text, node.mapCommands f ≠ comment text := by
        intro text htext
        cases node with
        | comment text' => exact hother text' rfl
        | _ => cases htext
      rw [List.map_cons, uncommentedAmong_cons hmapped, uncommentedAmong_cons hother, List.map_cons,
        hnode, ih hnodes]
    · obtain ⟨text, htext⟩ := not_forall_not.mp hother
      rw [htext, List.map_cons]
      exact ih hnodes

theorem mapCommands_uncommented (f : Command → Command) (node : Node) :
    (node.mapCommands f).uncommented = node.uncommented.mapCommands f := by
  induction node with
  | root children ih =>
    rw [mapCommands_root, uncommented, uncommented, mapCommands_root, uncommentedAmong_map ih]
  | function signature body ih =>
    rw [mapCommands_function, uncommented, uncommented, mapCommands_function,
      uncommentedAmong_map ih]
  | importing | param | invocation | expression | comment => rfl

end Node

namespace Program

/-- The program without its comments. -/
def uncommented (program : Program) : Program := ⟨Node.uncommentedAmong program.children⟩

theorem imports_uncommented (program : Program) :
    program.uncommented.imports = program.imports := by
  rw [imports, imports, Node.importsAmong_eq, Node.importsAmong_eq]
  exact Node.flatMap_uncommentedAmong (fun _ => rfl) fun node _ => node.imports_uncommented

theorem commands_uncommented (program : Program) :
    program.uncommented.commands = program.commands := by
  rw [commands_eq, commands_eq]
  exact Node.flatMap_uncommentedAmong (fun _ => rfl) fun node _ => node.commands_uncommented

theorem functionNames_uncommented (program : Program) :
    program.uncommented.functionNames = program.functionNames := by
  obtain ⟨nodes⟩ := program
  unfold functionNames uncommented
  induction nodes with
  | nil => rfl
  | cons node nodes ih =>
    cases node with
    | comment text => exact ih
    | function signature body => exact congrArg (signature.name :: ·) ih
    | _ => exact ih

theorem mapCommands_uncommented (f : Command → Command) (program : Program) :
    (program.mapCommands f).uncommented = program.uncommented.mapCommands f :=
  congrArg mk (Node.uncommentedAmong_map fun node _ => node.mapCommands_uncommented f)

theorem mainBody?_uncommented (node : Node) :
    node.uncommented.mainBody? = node.mainBody?.map Node.uncommentedAmong := by
  cases node with
  | function signature body =>
    rw [Node.uncommented, Node.mainBody?, Node.mainBody?]
    split <;> rfl
  | _ => rfl

theorem findSome?_uncommentedAmong (nodes : List Node) :
    (Node.uncommentedAmong nodes).findSome? Node.mainBody? =
      (nodes.findSome? Node.mainBody?).map Node.uncommentedAmong := by
  induction nodes with
  | nil => rfl
  | cons node nodes ih =>
    by_cases hother : ∀ text, node ≠ .comment text
    · rw [Node.uncommentedAmong_cons hother, List.findSome?_cons, List.findSome?_cons,
        mainBody?_uncommented]
      cases node.mainBody? with
      | none => exact ih
      | some body => rfl
    · obtain ⟨text, htext⟩ := not_forall_not.mp hother
      rw [htext]
      exact ih

theorem sectionsAmong_uncommentedAmong (nodes : List Node) :
    sectionsAmong (Node.uncommentedAmong nodes) = sectionsAmong nodes := by
  induction nodes with
  | nil => rfl
  | cons node nodes ih =>
    by_cases hother : ∀ text, node ≠ .comment text
    · rw [Node.uncommentedAmong_cons hother]
      by_cases hmain : node.mainBody? = none
      · have hmain' : node.uncommented.mainBody? = none := by
          rw [mainBody?_uncommented, hmain]
          rfl
        rw [sectionsAmong_cons hmain, sectionsAmong_cons hmain', Node.lines_uncommented, ih]
      · have hmain' : node.uncommented.mainBody? ≠ none := by
          rw [mainBody?_uncommented, ne_eq, Option.map_eq_none_iff]
          exact hmain
        rw [sectionsAmong_cons_of_main hmain, sectionsAmong_cons_of_main hmain', ih]
    · obtain ⟨text, htext⟩ := not_forall_not.mp hother
      rw [htext, Node.uncommentedAmong, ih, sectionsAmong_cons rfl]
      rfl

theorem code_uncommented (program : Program) : program.uncommented.code = program.code := by
  have hmain : ∀ body? : Option (List Node),
      mainCode (body?.map Node.uncommentedAmong) = mainCode body? := by
    intro body?
    cases body? with
    | none => rfl
    | some body =>
      have hlines : Node.linesAmong 0 (Node.uncommentedAmong body) = Node.linesAmong 0 body := by
        rw [Node.linesAmong_eq, Node.linesAmong_eq]
        exact Node.flatMap_uncommentedAmong (fun _ => rfl) fun node _ => node.lines_uncommented 0
      rw [Option.map_some, mainCode, mainCode, hlines]
  rw [code, code, uncommented, sectionsAmong_uncommentedAmong, mainBody?, mainBody?,
    findSome?_uncommentedAmong, hmain]

/-- Comments do not matter for a script. -/
theorem script_uncommented (options : Script.Options) (program : Program) :
    program.uncommented.script options = program.script options := by
  rw [script, script, imports_uncommented, ← mapCommands_uncommented, code_uncommented]

/-- Programs that are the same without their comments have the same script. -/
theorem Compilable.of_uncommented {options : Script.Options} {program other : Program}
    (h : program.Compilable options) (heq : other.uncommented = program.uncommented) :
    other.Compilable options ∧ other.script options = program.script options := by
  refine ⟨h.of_eq ?_ ?_ ?_, ?_⟩
  · rw [← functionNames_uncommented, heq, functionNames_uncommented]
  · rw [← imports_uncommented, heq, imports_uncommented]
  · rw [← commands_uncommented, heq, commands_uncommented]
  · rw [← script_uncommented, heq, script_uncommented]

end Program

/-! ## Derivations without a comment -/

namespace Grammar

theorem statements_of_semicolons {Statement : List Token → Node → Prop}
    (hterm : Builder.Terminated Statement) {ends ts : List Token} {nodes : List Node}
    (hends : Semicolons ends) (h : Statements Statement (ends ++ ts) nodes) :
    Statements Statement ts nodes := by
  induction ends with
  | nil => exact h
  | cons t ends ih =>
    obtain ⟨ht, hends⟩ := semicolons_cons.mp hends
    refine ih hends ?_
    generalize hts : t :: ends ++ ts = all at h
    cases h with
    | nil => cases hts
    | semicolon _ hrest =>
      obtain ⟨-, rfl⟩ := List.cons.inj hts
      exact hrest
    | @statement span rest node nodes hs _ =>
      obtain ⟨u, hu, hkind⟩ := hterm.head span node hs
      obtain ⟨tail, rfl⟩ := List.head?_eq_some_iff.mp hu
      obtain ⟨rfl, -⟩ := List.cons.inj hts
      exact absurd ht hkind

theorem statements_semicolons {Statement : List Token → Node → Prop} {ends ts : List Token}
    {nodes : List Node} (hends : Semicolons ends) (h : Statements Statement ts nodes) :
    Statements Statement (ends ++ ts) nodes := by
  induction ends with
  | nil => exact h
  | cons t ends ih =>
    obtain ⟨ht, hends⟩ := semicolons_cons.mp hends
    exact .semicolon ht (ih hends)

/-- Comments and semicolons may stand in front of statements. -/
theorem exists_statements_append {Statement : List Token → Node → Prop}
    (hcomment : ∀ t : Token, t.kind = .comment → Statement [t] (.comment t.text))
    {others ts : List Token} {nodes : List Node}
    (hothers : ∀ s ∈ others, s.kind = .comment ∨ s.kind = .semicolon)
    (h : Statements Statement ts nodes) :
    ∃ nodes', Statements Statement (others ++ ts) nodes' ∧
      Node.uncommentedAmong nodes' = Node.uncommentedAmong nodes := by
  induction others with
  | nil => exact ⟨nodes, h, rfl⟩
  | cons t others ih =>
    obtain ⟨ht, hothers⟩ := List.forall_mem_cons.mp hothers
    obtain ⟨nodes', hstatements, heq⟩ := ih hothers
    obtain ht | ht := ht
    · have hmore : Statements Statement ([t] ++ (others ++ ts)) (.comment t.text :: nodes') :=
        .statement (hcomment t ht) hstatements
      exact ⟨.comment t.text :: nodes', hmore, heq⟩
    · exact ⟨nodes', .semicolon ht hstatements, heq⟩

/-- A form of statements stays what it is when a comment is taken out of one of them, or out of
what follows, unless the comment is the statement. -/
def Uncommentable (Statement : List Token → Node → Prop) : Prop :=
  ∀ span node ts us, Statement span node → Uncommented (span ++ ts) us →
    (∃ ts', us = span ++ ts' ∧ Uncommented ts ts') ∨
    (∃ span' node', us = span' ++ ts ∧ Statement span' node' ∧
      Node.uncommentedAmong [node'] = Node.uncommentedAmong [node]) ∨
    ∃ text ends ends' others back, node = .comment text ∧ Semicolons ends ∧ Semicolons ends' ∧
      ends ++ ts = ends' ++ back ∧ us = others ++ back ∧
      ∀ s ∈ others, s.kind = .comment ∨ s.kind = .semicolon

theorem Uncommentable.or {Statement Other : List Token → Node → Prop}
    (h : Uncommentable Statement) (hother : Uncommentable Other) :
    Uncommentable fun span node => Statement span node ∨ Other span node := by
  rintro span node ts us (hs | hs) hus
  · obtain hafter | ⟨span', node', heq, hs', hsame⟩ | hcomment := h span node ts us hs hus
    · exact .inl hafter
    · exact .inr (.inl ⟨span', node', heq, .inl hs', hsame⟩)
    · exact .inr (.inr hcomment)
  · obtain hafter | ⟨span', node', heq, hs', hsame⟩ | hcomment := hother span node ts us hs hus
    · exact .inl hafter
    · exact .inr (.inl ⟨span', node', heq, .inr hs', hsame⟩)
    · exact .inr (.inr hcomment)

theorem comment_ne_of_semicolons {ends : List Token} (h : Semicolons ends) :
    ∀ t ∈ ends, t.kind ≠ .comment := by
  intro t ht
  rw [h t ht]
  decide

theorem uncommentable_import : Uncommentable ImportStatement := by
  intro span node ts us hs hus
  refine .inl (hus.append_inv_of_ne ?_)
  cases hs with
  | plain hkeyword hname _ hends =>
    simp only [List.forall_mem_cons]
    exact ⟨by rw [hkeyword]; decide, by rw [hname]; decide, comment_ne_of_semicolons hends⟩
  | aliased hkeyword hname hmark hother _ hends =>
    simp only [List.forall_mem_cons]
    exact ⟨by rw [hkeyword]; decide, by rw [hname]; decide, by rw [hmark]; decide,
      by rw [hother]; decide, comment_ne_of_semicolons hends⟩

theorem uncommentable_comment : Uncommentable CommentStatement := by
  intro span node ts us hs hus
  cases hs with
  | @intro t ends hkind hends =>
    generalize hts : t :: ends ++ ts = all at hus
    cases hus with
    | @here t' ends' others back _ hends' hothers =>
      obtain ⟨rfl, hback⟩ := List.cons.inj hts
      exact .inr (.inr ⟨t.text, ends, ends', others, back, rfl, hends, hends', hback, rfl, hothers⟩)
    | @there t' ts' us' hrest =>
      obtain ⟨rfl, rfl⟩ := List.cons.inj hts
      obtain ⟨ts'', rfl, hts''⟩ := hrest.append_inv_of_ne (comment_ne_of_semicolons hends)
      exact .inl ⟨ts'', rfl, hts''⟩

theorem uncommentable_invocation : Uncommentable InvocationStatement := by
  intro span node ts us hs hus
  cases hs with
  | @intro mark name opener last inside ends hmark hname hopener hinside hlast hends =>
    have hall : Uncommented ([mark, name, opener] ++ (inside ++ last :: (ends ++ ts))) us := by
      simpa using hus
    obtain ⟨behind, rfl, hbehind⟩ := hall.append_inv_of_ne (by simp [hmark, hname, hopener])
    obtain ⟨inside', rfl, hinside'⟩ | ⟨back, rfl, hback⟩ :=
      hbehind.append_inv (by rw [hlast]; decide) (by rw [hlast]; decide)
    · refine .inr (.inl ⟨mark :: name :: opener :: (inside' ++ last :: ends), _, by simp,
        .intro hmark hname hopener
          (hinside'.forall_kind_ne (by decide) (by decide) hinside) hlast hends, ?_⟩)
      rw [← hinside'.arguments_eq]
    · obtain ⟨ts', rfl, hts'⟩ := hback.append_inv_of_ne (comment_ne_of_semicolons hends)
      exact .inl ⟨ts', by simp, hts'⟩

theorem uncommentable_function {Body : List Token → List Node → Prop}
    (hBody : ∀ body nodes body', Body body nodes → Uncommented body body' →
      ∃ nodes', Body body' nodes' ∧
        Node.uncommentedAmong nodes' = Node.uncommentedAmong nodes) :
    Uncommentable (FunctionStatement Body) := by
  intro span node ts us hs hus
  cases hs with
  | @intro name colon paren close colon' opener last inside types body ends params value nodes hname
      hcolon hparen hparams hclose hcolon' htypes hopener hbalanced hbody hlast hends =>
    have hall : Uncommented ((name :: colon :: paren :: (inside ++ close :: colon' ::
        (types ++ [opener]))) ++ (body ++ last :: (ends ++ ts))) us := by
      simpa using hus
    have hheader : ∀ t ∈ name :: colon :: paren :: (inside ++ close :: colon' ::
        (types ++ [opener])), t.kind ≠ .comment := by
      intro t ht hkind
      have hmem := Builder.header_kind_mem hname hcolon hparen hparams hclose hcolon' htypes hopener
        t ht
      rw [hkind] at hmem
      revert hmem
      decide
    obtain ⟨behind, rfl, hbehind⟩ := hall.append_inv_of_ne hheader
    obtain ⟨body', rfl, hbody'⟩ | ⟨back, rfl, hback⟩ :=
      hbehind.append_inv (by rw [hlast]; decide) (by rw [hlast]; decide)
    · obtain ⟨nodes', hnodes', hsame⟩ := hBody body nodes body' hbody hbody'
      refine .inr (.inl ⟨_, _, ?_, .intro hname hcolon hparen hparams hclose hcolon' htypes hopener
        (hbody'.balanced hbalanced) hnodes' hlast hends, ?_⟩)
      · simp
      · simp only [Node.uncommentedAmong, Node.uncommented, hsame]
    · obtain ⟨ts', rfl, hts'⟩ := hback.append_inv_of_ne (comment_ne_of_semicolons hends)
      exact .inl ⟨ts', by simp, hts'⟩

/-- Statements with a comment taken out are statements, with the same nodes but for comments. -/
theorem exists_statements_uncommented {Statement : List Token → Node → Prop}
    (hterm : Builder.Terminated Statement)
    (hcomment : ∀ t : Token, t.kind = .comment → Statement [t] (.comment t.text))
    (hform : Uncommentable Statement) {ts us : List Token} {nodes : List Node}
    (h : Statements Statement ts nodes) (hus : Uncommented ts us) :
    ∃ nodes', Statements Statement us nodes' ∧
      Node.uncommentedAmong nodes' = Node.uncommentedAmong nodes := by
  induction h generalizing us with
  | nil => cases hus
  | semicolon hkind _ ih =>
    obtain ⟨us', rfl, hrest⟩ := hus.cons_inv (by rw [hkind]; decide)
    obtain ⟨nodes', hnodes', hsame⟩ := ih hrest
    exact ⟨nodes', .semicolon hkind hnodes', hsame⟩
  | @statement span ts node nodes hs hrest ih =>
    obtain ⟨ts', rfl, hts'⟩ | ⟨span', node', rfl, hs', hsame⟩ |
        ⟨text, ends, ends', others, back, rfl, hends, hends', hback, rfl, hothers⟩ :=
      hform span node ts us hs hus
    · obtain ⟨nodes', hnodes', hsame⟩ := ih hts'
      refine ⟨node :: nodes', .statement hs hnodes', ?_⟩
      rw [← List.singleton_append, Node.uncommentedAmong_append, hsame,
        ← Node.uncommentedAmong_append]
      rfl
    · refine ⟨node' :: nodes, .statement hs' hrest, ?_⟩
      rw [← List.singleton_append, Node.uncommentedAmong_append, hsame,
        ← Node.uncommentedAmong_append]
      rfl
    · -- The statement is the comment, and semicolons behind it were taken with it.
      have hall := statements_semicolons hends hrest
      rw [hback] at hall
      have hleft := statements_of_semicolons hterm hends' hall
      obtain ⟨nodes', hnodes', hsame⟩ := exists_statements_append hcomment hothers hleft
      exact ⟨nodes', hnodes', hsame⟩

end Grammar

namespace Builder

theorem exists_body_uncommented {b : Builder} (hstrict : b.options.lenient = false)
    {body body' : List Token} {nodes : List Node} (h : b.Body body nodes)
    (hbody' : Uncommented body body') :
    ∃ nodes', b.Body body' nodes' ∧
      Node.uncommentedAmong nodes' = Node.uncommentedAmong nodes := by
  obtain ⟨hdepth, hnodes⟩ := h
  rw [hstrict] at hnodes
  have hstatements := statements_of_nodesBy body_steps inner_terminated _ hnodes
  obtain ⟨nodes', hnodes', hsame⟩ := exists_statements_uncommented inner_terminated
    (fun t ht => .inr (.intro ht (by simp [Semicolons])))
    (uncommentable_invocation.or uncommentable_comment) hstatements hbody'
  refine ⟨nodes', ⟨hdepth, ?_⟩, hsame⟩
  rw [hstrict]
  exact (result_nodesBy_eq_ok_iff body_steps inner_terminated _ 0).mpr hnodes'

/-- A strict builder makes the same program but for comments. -/
theorem exists_build_uncommented {b : Builder} (hscope : b.scope = .topLevel)
    (hstrict : b.options.lenient = false) {ts us : List Token} {program : Program}
    (h : (b.build ts).result = .ok program) (hus : Uncommented ts us) :
    ∃ other, (b.build us).result = .ok other ∧ other.uncommented = program.uncommented := by
  rw [build, result_buildBy, hstrict] at h
  obtain ⟨nodes, hnodes, rfl⟩ := map_eq_ok_iff.mp h
  have hstatements := statements_of_nodesBy (rules_steps hscope) (outer_terminated b) _ hnodes
  obtain ⟨nodes', hnodes', hsame⟩ := exists_statements_uncommented (outer_terminated b)
    (fun t ht => .inr (.inl (.intro ht (by simp [Semicolons]))))
    (uncommentable_import.or (uncommentable_comment.or
      (uncommentable_function fun _ _ _ => exists_body_uncommented hstrict))) hstatements hus
  refine ⟨⟨nodes'⟩, ?_, congrArg Program.mk hsame⟩
  rw [build, result_buildBy, hstrict,
    (result_nodesBy_eq_ok_iff (rules_steps hscope) (outer_terminated b) _ 0).mpr hnodes']
  rfl

end Builder

/-! ## Sources without a comment -/

namespace Token

/-- In code, a comment up to the end of its line is one token, and apart from it at most the
semicolon differs that the line end becomes. -/
theorem uncommented_of_code {front back : List Token} {t : Token} (ht : t.kind = .comment)
    (hback : ∀ s ∈ back.head?, s.kind = .newLine) :
    Uncommented (dropBlanks (endStatements (joinArrayTypes front)) ++
        t :: dropBlanks (endStatementsAfter (some t.kind) (joinArrayTypes back)))
      (dropBlanks (endStatements (joinArrayTypes (front ++ back)))) := by
  cases back with
  | nil =>
    have hhere : Uncommented (t :: ([] ++ [])) ([] ++ []) := .here ht nofun nofun
    have hall := hhere.behind (dropBlanks (endStatements (joinArrayTypes front)))
    simpa [joinArrayTypes, endStatementsAfter, dropBlanks] using hall
  | cons s back =>
    have hs : s.kind = .newLine := hback s rfl
    have hopen : s.kind ≠ .openSquare := by rw [hs]; decide
    have hapart := apart_cons (by rw [hs]; decide) (by rw [hs]; decide) front back
    let semicolon : Token := { s with kind := .semicolon, text := ";" }
    let rest := dropBlanks (endStatementsAfter none (joinArrayTypes back))
    -- Behind a semicolon, and where the statement goes on, the rest is read as from its start.
    have hrest : ∀ previous : Option Kind, previous.all Kind.continues = true →
        dropBlanks (endStatementsAfter previous (joinArrayTypes back)) = rest :=
      fun previous hprevious => congrArg dropBlanks (endStatementsAfter_of_continues hprevious _)
    have hends : ∀ previous : Option Kind, ¬previous.all Kind.continues = true →
        dropBlanks (endStatementsAfter previous (s :: joinArrayTypes back)) =
          semicolon :: rest := by
      intro previous hprevious
      rw [endStatementsAfter_cons, ended, if_pos ⟨hs, hprevious⟩, hs, settle, if_neg hprevious,
        ← hrest (some .semicolon) rfl]
      rfl
    have hwith : dropBlanks (endStatementsAfter (some t.kind) (joinArrayTypes (s :: back))) =
        semicolon :: rest := by
      rw [joinArrayTypes_of_ne hopen, ht]
      exact hends (some .comment) (by decide)
    rw [hwith, joinArrayTypes_append hapart, joinArrayTypes_of_ne hopen, endStatements,
      endStatements, endStatementsAfter_append, dropBlanks_append]
    refine Uncommented.behind _ ?_
    have hsemicolon : Semicolons [semicolon] := by simp [Semicolons, semicolon]
    by_cases hprevious : (settled none (joinArrayTypes front)).all Kind.continues = true
    · have hwithout : dropBlanks (endStatementsAfter (settled none (joinArrayTypes front))
          (s :: joinArrayTypes back)) = rest := by
        rw [endStatementsAfter_cons, ended, if_neg fun h => h.2 hprevious, hs, settle,
          if_pos hprevious, ← hrest _ hprevious]
        exact List.filter_cons_of_neg (by simp [hs, Kind.isBlank])
      rw [hwithout]
      exact @Uncommented.here t [semicolon] [] rest ht hsemicolon nofun
    · rw [hends _ hprevious]
      exact @Uncommented.here t [semicolon] [semicolon] rest ht hsemicolon
        fun s hs => .inr (hsemicolon s hs)

/-- A comment taken out of the pieces is taken out of the tokens. -/
theorem exists_layOut_uncommented {front inside back ts : List Token} {mark : Token}
    (hfront : (Region.along {} front).quoted = false) (hmark : mark.kind = .startComment)
    (hquote : ∀ t ∈ inside, t.kind ≠ .stringLiteralMarker)
    (hline : ∀ t ∈ inside, t.kind ≠ .newLine) (hback : ∀ t ∈ back.head?, t.kind = .newLine)
    (h : layOut (front ++ mark :: (inside ++ back)) = .ok ts) :
    ∃ us, layOut (front ++ back) = .ok us ∧ Uncommented ts us := by
  have hplain : ∀ t ∈ mark :: inside, t.kind ≠ .stringLiteralMarker :=
    List.forall_mem_cons.mpr ⟨by rw [hmark]; decide, hquote⟩
  obtain ⟨joined, hjoined⟩ : ∃ joined, joinStrings back = .ok joined := by
    obtain ⟨all, hall⟩ := exists_joinStrings_of_layOut hfront h
    rw [← List.cons_append, joinStrings, joinStringsFrom_append (joinStrings_of_ne hplain)] at hall
    obtain ⟨joined, hjoined, -⟩ := map_eq_ok_iff.mp hall
    exact ⟨joined, hjoined⟩
  obtain hregion | hregion := along_of_not_quoted hfront
  · obtain ⟨out, hout⟩ := group_append hregion
    have hgroup : group back = .ok (joinComments joined) := by
      rw [group, hjoined]
      rfl
    have hwith : group (front ++ mark :: (inside ++ back)) =
        .ok (out ++ merge .comment inside mark :: joinComments joined) := by
      rw [hout, group_comment hmark hquote hline hback, hgroup]
      rfl
    rw [layOut_around hwith (.inl rfl)] at h
    refine ⟨dropBlanks (endStatements (joinArrayTypes (out ++ joinComments joined))), ?_, ?_⟩
    · rw [layOut, hout, hgroup]
      rfl
    · rw [← Except.ok.inj h]
      exact uncommented_of_code rfl (head?_group hgroup hback)
  · -- The comment stands in a longer one, which gets shorter.
    obtain ⟨out, outer, parts, hout⟩ := exists_group_open hregion
    have hrest := head?_joinStrings hjoined hback
    have hlonger : joinStrings (mark :: (inside ++ back)) = .ok ((mark :: inside) ++ joined) := by
      rw [← List.cons_append, joinStrings, joinStringsFrom_append (joinStrings_of_ne hplain),
        hjoined]
      rfl
    have hmore : ∀ t ∈ mark :: inside, t.kind ≠ .newLine :=
      List.forall_mem_cons.mpr ⟨by rw [hmark]; decide, hline⟩
    rw [layOut_around (hout _ (mark :: inside) joined hlonger hmore hrest) (.inl rfl)] at h
    refine ⟨_, layOut_around (hout _ [] joined hjoined (by simp) hrest) (.inl rfl), ?_⟩
    rw [← Except.ok.inj h]
    refine Uncommented.behind _ ?_
    exact @Uncommented.here _ [] [merge .comment (parts ++ []) outer] _ rfl (by simp [Semicolons])
      (by simp [merge])

end Token

namespace Compiler

/-- A comment can be taken out of a source that has a script, and the script stays the same. -/
theorem script_without_comment (valid : String → Bool) (config : Config)
    (hstrict : config.settings.lenient = false) (file : Option String) (front text back : String)
    (hfront : Even (front.toList.count '"')) (hquote : '"' ∉ text.toList)
    (hline : '\n' ∉ text.toList) (hback : back = "" ∨ back.toList.head? = some '\n')
    (script : String)
    (h : (compileBy valid config file (front ++ "#" ++ text ++ back)).result = .ok script) :
    (compileBy valid config file (front ++ back)).result = .ok script := by
  obtain ⟨ts, hts, hscript⟩ := compileBy_eq_ok_iff.mp h
  have hhead : ∀ c ∈ back.toList.head?, c = '\n' := by
    obtain rfl | hback := hback
    · nofun
    · intro c hc
      exact Option.some.inj (hc.symm.trans hback)
  have hseparator : ∀ c ∈ back.toList.head?, isSeparator c = true := by
    intro c hc
    rw [hhead c hc]
    decide
  have hmark : ∀ c ∈ ('#' :: (text.toList ++ back.toList)).head?, isSeparator c = true := by
    rintro c ⟨⟩
    decide
  have hwith : (Fragment.split (front ++ "#" ++ text ++ back).toList).map bare =
      (Fragment.split front.toList).map bare ++ bare ['#'] ::
        ((Fragment.split text.toList).map bare ++ (Fragment.split back.toList).map bare) := by
    have htext : (front ++ "#" ++ text ++ back).toList =
        front.toList ++ '#' :: (text.toList ++ back.toList) := by simp
    rw [htext, Fragment.split_append (.inr hmark), Fragment.split,
      Fragment.attach_separator (by decide), Fragment.split_append (.inr hseparator),
      List.map_append, List.map_cons, List.map_append]
  rw [hwith] at hts
  obtain ⟨us, hus, huncommented⟩ := exists_layOut_uncommented (quoted_of_even hfront)
    (kind_bare_hash.mpr rfl) (kind_ne_quote hquote) (kind_ne_lineEnd hline)
    (head?_split_lineEnd hhead) hts
  obtain ⟨program, hbuild, hcompilable, hjudged⟩ := scriptOf_eq_ok_iff.mp hscript
  obtain ⟨other, hother, hsame⟩ := Builder.exists_build_uncommented rfl hstrict hbuild huncommented
  obtain ⟨hcompilable', hscript'⟩ := hcompilable.of_uncommented hsame
  refine compileBy_eq_ok_iff.mpr ⟨us, ?_, scriptOf_eq_ok_iff.mpr
    ⟨other, hother, hcompilable', hscript' ▸ hjudged⟩⟩
  rw [String.toList_append, Fragment.split_append (.inr hseparator), List.map_append, hus]

/-- A comment with a brace in it, behind the brace that opens a body. -/
theorem script_without_comment_at_brace :
    (compileBy (fun _ => true) {} none ("# \"#\"\nf:(a:string):\x7b" ++ "\n\x7d")).result =
      .ok "f() \x7b\n\tlocal a=\"$1\"\n\x7d\n" := by
  have hwith : (compileBy (fun _ => true) {} none
      ("# \"#\"\nf:(a:string):\x7b" ++ "#" ++ " \x7d" ++ "\n\x7d")).result =
      .ok "f() \x7b\n\tlocal a=\"$1\"\n\x7d\n" := by cbv
  exact script_without_comment (fun _ => true) {} rfl none "# \"#\"\nf:(a:string):\x7b" " \x7d"
    "\n\x7d" (by decide) (by decide) (by decide) (.inr rfl) _ hwith

end Compiler

end CheckedScript
