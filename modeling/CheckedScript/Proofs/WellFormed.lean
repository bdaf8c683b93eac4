import CheckedScript.Proofs.Building
import CheckedScript.Proofs.Lexing

/-!
The programs that come from a source, built strictly or not: imports, comments and functions at
top level, invocations and comments in bodies. Names are identifiers, and neither arguments nor
comments hold a quote.

Main result:
* `Compiler.atTopLevel_of_parse`: what a source is parsed to is well formed.
-/

namespace CheckedScript

open Grammar

namespace Node

/-- A node that a function body can hold. -/
inductive InBody : Node → Prop
  | invocation {command : Command} (name : IsIdentifier command.name)
      (args : ∀ arg ∈ command.args, IsPlain arg) : InBody (invocation command)
  | comment {text : String} (plain : IsPlain text) : InBody (comment text)

/-- A node that a program can hold. -/
inductive AtTopLevel : Node → Prop
  | importing {declaration : Import} (name : IsIdentifier declaration.name)
      (aliasName : ∀ other ∈ declaration.aliasName, IsIdentifier other) :
      AtTopLevel (importing declaration)
  | comment {text : String} (plain : IsPlain text) : AtTopLevel (comment text)
  | function {signature : Signature} {body : List Node} (name : IsIdentifier signature.name)
      (params : ∀ param ∈ signature.params, IsIdentifier param.name)
      (inBody : ∀ node ∈ body, InBody node) : AtTopLevel (function signature body)

end Node

namespace Builder

/-- What holds of the node of every statement holds of all that is built, with tokens skipped or
not. -/
theorem forall_mem_of_nodesBy {rules : List Rule} {Statement : List Token → Node → Prop}
    {P : Token → Prop} {Q : Node → Prop} (hsteps : Steps rules Statement)
    (hterm : Terminated Statement)
    (hstatement : ∀ span node, (∀ t ∈ span, P t) → Statement span node → Q node)
    {scope : Scope} {lenient : Bool} {offset : Nat} {ts : List Token} {nodes : List Node}
    (hts : ∀ t ∈ ts, P t) (h : (nodesBy scope lenient rules offset ts).result = .ok nodes) :
    ∀ node ∈ nodes, Q node := by
  refine @nodesBy_induct _ _ hsteps hterm scope lenient
    (fun ts nodes => (∀ t ∈ ts, P t) → ∀ node ∈ nodes, Q node) ?_ ?_ ?_ ?_ _ _ _ h hts
  · simp
  · intro t ts nodes _ ih hts
    exact ih (List.forall_mem_cons.mp hts).2
  · intro span node ts nodes hs ih hts
    obtain ⟨hspan, hrest⟩ := List.forall_mem_append.mp hts
    exact List.forall_mem_cons.mpr ⟨hstatement span node hspan hs, ih hrest⟩
  · intro t ts nodes _ _ _ ih hts
    exact ih (List.forall_mem_cons.mp hts).2

theorem inBody_of_statement {span : List Token} {node : Node} (hspan : ∀ t ∈ span, t.Clean)
    (h : InnerStatement span node) : node.InBody := by
  obtain h | h := h
  · cases h with
    | @intro mark name opener last inside ends _ hname =>
      refine .invocation ((hspan name (by simp)).identifier hname) ?_
      intro arg harg
      obtain ⟨t, ht, rfl⟩ := List.mem_map.mp harg
      have hinside := (List.mem_filter.mp ht).1
      exact (hspan t (by simp [hinside])).plain
  · cases h with
    | intro => exact .comment (hspan _ (List.mem_cons_self ..)).plain

theorem identifier_of_params {ts : List Token} {params : List Param} (hts : ∀ t ∈ ts, t.Clean)
    (h : Params ts params) : ∀ param ∈ params, IsIdentifier param.name := by
  induction h with
  | nil => simp
  | separator _ _ ih => exact ih (List.forall_mem_cons.mp hts).2
  | param hname _ _ _ ih =>
    obtain ⟨hfirst, hrest⟩ := List.forall_mem_cons.mp hts
    refine List.forall_mem_cons.mpr ⟨hfirst.identifier hname, ih fun t ht => hrest t ?_⟩
    exact List.mem_append_right _ (List.mem_cons_of_mem _ ht)

theorem atTopLevel_of_statement {b : Builder} {span : List Token} {node : Node}
    (hspan : ∀ t ∈ span, t.Clean) (h : OuterStatement b.Body span node) : node.AtTopLevel := by
  obtain h | h | h := h
  · cases h with
    | @plain keyword name ends _ hname =>
      exact .importing ((hspan name (by simp)).identifier hname) nofun
    | @aliased keyword name mark other ends _ hname _ hother =>
      refine .importing ((hspan name (by simp)).identifier hname) ?_
      rintro _ ⟨⟩
      exact (hspan other (by simp)).identifier hother
  · cases h with
    | intro => exact .comment (hspan _ (List.mem_cons_self ..)).plain
  · cases h with
    | @intro name _ _ _ _ _ _ inside _ body _ _ _ _ hname _ _ hparams _ _ _ _ _ hbody =>
      refine .function ((hspan name (by simp)).identifier hname) ?_ ?_
      · exact identifier_of_params (fun t ht => hspan t (by simp [ht])) hparams
      · exact forall_mem_of_nodesBy body_steps inner_terminated (fun _ _ => inBody_of_statement)
          (fun t ht => hspan t (by simp [ht])) hbody.2

end Builder

/-- A program that comes from a source is made of well-formed nodes. -/
theorem Compiler.atTopLevel_of_parse {config : Config} {file : Option String} {source : String}
    {program : Program} (h : (parse config file source).result = .ok program) :
    ∀ node ∈ program.children, node.AtTopLevel := by
  obtain ⟨ts, hts, hbuild⟩ := Run.result_bind_eq_ok_iff.mp h
  rw [Builder.build, Builder.result_buildBy] at hbuild
  obtain ⟨nodes, hnodes, rfl⟩ := map_eq_ok_iff.mp hbuild
  exact Builder.forall_mem_of_nodesBy (Builder.rules_steps rfl) (Builder.outer_terminated _)
    (fun _ _ => Builder.atTopLevel_of_statement) (clean_of_tokens hts) hnodes

end CheckedScript
