import CheckedScript.Proofs.Compilation
import CheckedScript.Proofs.ErrorPositions

/-!
Errors of the front end point into the source. Tokens stand where fragments do, whatever passes
they went through, and identifiers have the text of theirs. Errors stand at tokens, so each points
at a character of the source, and the name of an unresolved command can be read there.

Main result:
* `Compiler.compileBy_error_in_source`: where errors of syntax and of resolution point.

Errors of generation and of classification are left out.
-/

namespace CheckedScript

/-! ## Places of a text -/

namespace Position

/-- The place `p` of the text `cs`, with the text from there on. -/
def Opens (file : Option String) (cs : List Char) (p : Position) (rest : List Char) : Prop :=
  ∃ front, cs = front ++ rest ∧ p = behind file front

theorem Before.irrefl (p : Position) : ¬ p.Before p := by
  unfold Before
  omega

/-- Further text leads to another place. -/
theorem behind_append_ne (file : Option String) (front : List Char) {more : List Char}
    (h : more ≠ []) : behind file (front ++ more) ≠ behind file front := by
  intro heq
  have hbefore := before_after (behind file front) h
  rw [← behind_append, heq] at hbefore
  exact Before.irrefl _ hbefore

/-- Line and column determine what stands behind them. -/
theorem Opens.unique {file : Option String} {cs rest other : List Char} {p : Position}
    (h : p.Opens file cs rest) (h' : p.Opens file cs other) : other = rest := by
  obtain ⟨front, rfl, rfl⟩ := h
  obtain ⟨front', hcs, hp⟩ := h'
  obtain ⟨more, rfl, rfl⟩ | ⟨more, rfl, rfl⟩ := List.append_eq_append_iff.mp hcs
  · cases more with
    | nil => rfl
    | cons c more => exact absurd hp.symm (behind_append_ne file front (List.cons_ne_nil c more))
  · cases more with
    | nil => rfl
    | cons c more => exact absurd hp (behind_append_ne file front' (List.cons_ne_nil c more))

end Position

namespace Fragment

theorem exists_front_of_mem_place {p : Position} {pieces : List (List Char)} {fragment : Fragment}
    (h : fragment ∈ place p pieces) :
    ∃ front rest, pieces.flatten = front ++ (fragment.text.toList ++ rest) ∧
      fragment.position = p.after front := by
  induction pieces generalizing p with
  | nil => cases h
  | cons piece pieces ih =>
    obtain rfl | h := List.mem_cons.mp h
    · exact ⟨[], pieces.flatten, by simp, rfl⟩
    · obtain ⟨front, rest, hflatten, hposition⟩ := ih h
      refine ⟨piece ++ front, rest, ?_, ?_⟩
      · rw [List.flatten_cons, hflatten, List.append_assoc]
      · rw [hposition, Position.after_append]

/-- A fragment stands where the source goes on with its text. -/
theorem opens_of_mem_ofSource {file : Option String} {source : String} {fragment : Fragment}
    (h : fragment ∈ ofSource file source) :
    ∃ rest, fragment.position.Opens file source.toList (fragment.text.toList ++ rest) := by
  obtain ⟨front, rest, hflatten, hposition⟩ := exists_front_of_mem_place h
  rw [split_flatten] at hflatten
  exact ⟨rest, front, hflatten, by rw [hposition, Position.start_after]⟩

theorem text_ne_nil {file : Option String} {source : String} {fragment : Fragment}
    (h : fragment ∈ ofSource file source) : fragment.text.toList ≠ [] := by
  obtain ⟨c, -, hc⟩ | ⟨hne, -⟩ := isPiece_of_mem_ofSource h
  · rw [hc]
    exact List.cons_ne_nil c []
  · exact hne

end Fragment

/-! ## Tokens and what is built from them -/

namespace Token

/-- A token that stands at one of the fragments; an identifier has the text of it. -/
def AtFragment (fragments : List Fragment) (t : Token) : Prop :=
  ∃ fragment ∈ fragments, t.position = fragment.position ∧
    (t.kind = .identifier → t.text = fragment.text)

theorem atFragment_merge {fragments : List Fragment} {kind : Kind} {parts : List Token}
    {mark : Token} (hkind : kind ≠ .identifier) (hparts : ∀ t ∈ parts, t.AtFragment fragments)
    (hmark : mark.AtFragment fragments) : (merge kind parts mark).AtFragment fragments := by
  have hfirst : (parts.head?.getD mark).AtFragment fragments := by
    cases parts with
    | nil => exact hmark
    | cons t parts => exact hparts t (List.mem_cons_self ..)
  obtain ⟨fragment, hmem, hposition, -⟩ := hfirst
  exact ⟨fragment, hmem, hposition, fun h => absurd h hkind⟩

theorem atFragment_kept (fragments : List Fragment) :
    Kept (AtFragment fragments) (AtFragment fragments) where
  other _ ht _ := ht
  string _ _ := atFragment_merge (by decide)
  comment _ _ := atFragment_merge (by decide)
  arrayType a b c ha hb hc := atFragment_merge (by decide) (by simp [ha, hb, hc]) ha
  semicolon := by
    rintro t ⟨fragment, hmem, hposition, -⟩
    exact ⟨fragment, hmem, hposition, nofun⟩

/-- The strings pass fails at a quotation mark. -/
theorem standsAt_of_joinStringsFrom {mark : Option Token} {parts ts : List Token}
    {e : CompileError} (h : joinStringsFrom mark parts ts = .error e) :
    ∃ t, (t ∈ mark ∨ t ∈ ts) ∧ e.StandsAt t.position := by
  fun_induction joinStringsFrom mark parts ts with
  | case1 => cases h
  | case2 parts mark => cases h; exact ⟨mark, .inl rfl, .malformed _⟩
  | case3 parts t ts hkind ih =>
    obtain ⟨u, hu | hu, hat⟩ := ih h
    · obtain rfl := Option.mem_some.mp hu
      exact ⟨t, .inr (List.mem_cons_self ..), hat⟩
    · exact ⟨u, .inr (List.mem_cons_of_mem _ hu), hat⟩
  | case4 parts t ts hkind ih | case5 parts t ts mark hkind ih =>
    obtain ⟨u, hu | hu, hat⟩ := ih (map_eq_error_iff.mp h)
    · cases hu
    · exact ⟨u, .inr (List.mem_cons_of_mem _ hu), hat⟩
  | case6 parts t ts mark hkind ih =>
    obtain ⟨u, hu, hat⟩ := ih h
    exact ⟨u, hu.imp_right (List.mem_cons_of_mem _), hat⟩

end Token

/-- An identifier with the name of the command, where the command stands. -/
def Command.NamedBy (t : Token) (command : Command) : Prop :=
  t.kind = .identifier ∧ t.text = command.name ∧ t.position = command.position

namespace Builder

open Grammar

theorem namedBy_of_inner {span : List Token} {node : Node} (h : InnerStatement span node) :
    ∀ command ∈ node.commands, ∃ t ∈ span, command.NamedBy t := by
  obtain h | h := h
  · cases h with
    | @intro mark name _ _ _ _ _ hname =>
      intro command hcommand
      obtain rfl := List.mem_singleton.mp hcommand
      exact ⟨name, by simp, hname, rfl, rfl⟩
  · cases h
    nofun

/-- Tokens name the commands of all nodes if they name those of each statement. -/
theorem namedBy_of_nodesBy {rules : List Rule} {Statement : List Token → Node → Prop}
    (hsteps : Steps rules Statement) (hterm : Terminated Statement)
    (hstatement : ∀ span node, Statement span node →
      ∀ command ∈ node.commands, ∃ t ∈ span, command.NamedBy t)
    {scope : Scope} {lenient : Bool} {offset : Nat} {ts : List Token} {nodes : List Node}
    (h : (nodesBy scope lenient rules offset ts).result = .ok nodes) :
    ∀ command ∈ nodes.flatMap Node.commands, ∃ t ∈ ts, command.NamedBy t := by
  have hnodes : ∀ node ∈ nodes, ∀ command ∈ node.commands, ∃ t ∈ ts, command.NamedBy t := by
    refine forall_mem_of_nodesBy hsteps hterm ?_ (fun t ht => ht) h
    intro span node hspan hs command hcommand
    obtain ⟨t, ht, hnamed⟩ := hstatement span node hs command hcommand
    exact ⟨t, hspan t ht, hnamed⟩
  intro command hcommand
  obtain ⟨node, hnode, hcommand⟩ := List.mem_flatMap.mp hcommand
  exact hnodes node hnode command hcommand

theorem namedBy_of_outer {b : Builder} {span : List Token} {node : Node}
    (h : OuterStatement b.Body span node) :
    ∀ command ∈ node.commands, ∃ t ∈ span, command.NamedBy t := by
  obtain h | h | h := h
  · cases h <;> nofun
  · cases h
    nofun
  · cases h with
    | intro _ _ _ _ _ _ _ _ _ hbody =>
      intro command hcommand
      rw [Node.commands_function] at hcommand
      obtain ⟨t, ht, hnamed⟩ := namedBy_of_nodesBy body_steps inner_terminated
        (fun _ _ => namedBy_of_inner) hbody.2 command hcommand
      exact ⟨t, by simp [ht], hnamed⟩

/-- Every command of a program stands at the token that names it. -/
theorem namedBy_of_build {b : Builder} (hscope : b.scope = .topLevel) {ts : List Token}
    {program : Program} (h : (b.build ts).result = .ok program) :
    ∀ command ∈ program.commands, ∃ t ∈ ts, command.NamedBy t := by
  rw [build, result_buildBy] at h
  obtain ⟨nodes, hnodes, rfl⟩ := map_eq_ok_iff.mp h
  rw [Program.commands_eq]
  exact namedBy_of_nodesBy (rules_steps hscope) (outer_terminated b)
    (fun _ _ => namedBy_of_outer) hnodes

end Builder

/-! ## Sources -/

namespace CompileError

/-- An error of the front end that stands at `fragment`; if a command is unresolved, the fragment
is its name. -/
inductive StandsOn (fragment : Fragment) : CompileError → Prop
  | grammar {e : CompileError} (h : e.StandsAt fragment.position) : StandsOn fragment e
  | unresolved : StandsOn fragment (.unresolved fragment.text (some fragment.position))

theorem StandsOn.position {fragment : Fragment} {e : CompileError} (h : e.StandsOn fragment) :
    e.position = some fragment.position := by
  obtain ⟨h⟩ | _ := h
  · cases h <;> rfl
  · rfl

theorem StandsOn.name {fragment : Fragment} {name : String} {position : Option Position}
    (h : StandsOn fragment (.unresolved name position)) : name = fragment.text := by
  obtain ⟨h⟩ | _ := h
  · cases h
  · rfl

end CompileError

namespace Compiler

variable {valid : String → Bool} {config : Config} {file : Option String} {source : String}

theorem atFragment_of_tokens {ts : List Token} (h : (tokens file source).result = .ok ts) :
    ∀ t ∈ ts, t.AtFragment (Fragment.ofSource file source) :=
  forall_mem_tokens (Token.atFragment_kept _)
    (fun fragment hmem => ⟨fragment, hmem, rfl, fun _ => rfl⟩) h

theorem standsOn_of_tokens {e : CompileError} (h : (tokens file source).result = .error e) :
    ∃ fragment ∈ Fragment.ofSource file source, e.StandsOn fragment := by
  rw [result_tokens, map_eq_error_iff] at h
  obtain ⟨t, ht | ht, hat⟩ := Token.standsAt_of_joinStringsFrom h
  · cases ht
  · obtain ⟨fragment, hmem, rfl⟩ := List.mem_map.mp ht
    exact ⟨fragment, hmem, .grammar hat⟩

/-- Where the error is not one of generation, it stands on a fragment. -/
theorem standsOn_of_scriptOf {fragments : List Fragment} {ts : List Token} {e : CompileError}
    (hts : ∀ t ∈ ts, t.AtFragment fragments) (h : scriptOf valid config ts = .error e)
    (hkind : e.kind ≠ .generation) : ∃ fragment ∈ fragments, e.StandsOn fragment := by
  rw [scriptOf_eq] at h
  obtain hbuild | ⟨program, hprogram, hscript⟩ := bind_eq_error_iff.mp h
  · obtain ⟨t, ht, hat⟩ := Builder.standsAmong_build rfl hbuild
    obtain ⟨fragment, hmem, hposition, -⟩ := hts t ht
    exact ⟨fragment, hmem, .grammar (hposition ▸ hat)⟩
  obtain ⟨command, hcommand, -, rfl⟩ | ⟨-, -, fault, rfl⟩ :=
    Program.cases_of_toScript (Builder.flat_of_build rfl hprogram) hscript
  · obtain ⟨t, ht, hidentifier, hname, hat⟩ :=
      Builder.namedBy_of_build rfl hprogram command hcommand
    obtain ⟨fragment, hmem, hposition, htext⟩ := hts t ht
    refine ⟨fragment, hmem, ?_⟩
    rw [← hname, ← hat, hposition, htext hidentifier]
    exact .unresolved
  · exact absurd rfl hkind

/-- An error of syntax or of resolution has a position, which is that of a fragment and so of a
character of the source. If a command is unresolved, the source goes on with its name there. -/
theorem compileBy_error_in_source {e : CompileError}
    (h : (compileBy valid config file source).result = .error e)
    (hkind : e.kind = .parsing ∨ e.kind = .resolution) :
    ∃ p c rest, e.position = some p ∧ p.file = file ∧
      (∃ fragment ∈ Fragment.ofSource file source, fragment.position = p) ∧
      (∀ text, p.Opens file source.toList text ↔ text = c :: rest) ∧
      ∀ name position, e = .unresolved name position → name.toList <+: c :: rest := by
  have hgeneration : e.kind ≠ .generation := by
    obtain hkind | hkind := hkind <;> rw [hkind] <;> decide
  obtain ⟨fragment, hmem, hstands⟩ :
      ∃ fragment ∈ Fragment.ofSource file source, e.StandsOn fragment := by
    rw [result_compileBy] at h
    obtain htokens | ⟨ts, hts, hscript⟩ := bind_eq_error_iff.mp h
    · exact standsOn_of_tokens htokens
    · exact standsOn_of_scriptOf (atFragment_of_tokens hts) hscript hgeneration
  obtain ⟨rest, hopens⟩ := Fragment.opens_of_mem_ofSource hmem
  obtain ⟨c, text, htext⟩ := List.exists_cons_of_ne_nil (Fragment.text_ne_nil hmem)
  have hrest : c :: (text ++ rest) = fragment.text.toList ++ rest := by rw [htext, List.cons_append]
  refine ⟨fragment.position, c, text ++ rest, hstands.position, ?_, ⟨fragment, hmem, rfl⟩, ?_, ?_⟩
  · obtain ⟨front, -, hposition⟩ := hopens
    rw [hposition]
    rfl
  · intro other
    rw [hrest]
    exact ⟨hopens.unique, fun heq => heq ▸ hopens⟩
  · rintro name position rfl
    rw [hrest, hstands.name]
    exact List.prefix_append _ _

/-- The command behind a literal that goes over two lines is found at its own place. -/
theorem compileBy_error_in_source_behind_literal :
    (compileBy (fun _ => true) {} (some "a.b")
        "import ls;main:():\x7b$ls[\"\n\"]\n $rm[]\x7d").result =
      .error (.unresolved "rm" (some ⟨some "a.b", 3, 3⟩)) ∧
    ∃ c rest, Position.Opens (some "a.b")
        "import ls;main:():\x7b$ls[\"\n\"]\n $rm[]\x7d".toList ⟨some "a.b", 3, 3⟩ (c :: rest) ∧
      "rm".toList <+: c :: rest := by
  have herror : (compileBy (fun _ => true) {} (some "a.b")
      "import ls;main:():\x7b$ls[\"\n\"]\n $rm[]\x7d").result =
        .error (.unresolved "rm" (some ⟨some "a.b", 3, 3⟩)) := by cbv
  obtain ⟨p, c, rest, hposition, -, -, hopens, hname⟩ :=
    compileBy_error_in_source herror (.inr rfl)
  cases hposition
  exact ⟨herror, c, rest, (hopens _).mpr rfl, hname _ _ rfl⟩

end Compiler

end CheckedScript
