import CheckedScript.Proofs.ErrorPositions
import CheckedScript.Proofs.Layout

/-!
Sources one after the other. A source that ends in a line end is lexed and built without regard to
what follows it, and what follows is lexed and built as if it stood alone, that many lines further
down. An error of the front end stands at a token, so it moves down with it.

Main results:
* `Compiler.result_tokens_append`, `Compiler.result_parse_append`: tokens and program of both.
* `Compiler.parse_behind_lines`: parsing is compositional, errors included.

Only strict building is considered.
-/

namespace CheckedScript

open Grammar

/-! ## Positions further down -/

namespace Position

/-- The position that many lines further down. -/
def lowered (lines : Nat) (p : Position) : Position := { p with line := p.line + lines }

theorem advance_lowered (lines : Nat) (p : Position) (c : Char) :
    (p.lowered lines).advance c = (p.advance c).lowered lines := by
  unfold advance
  split
  · simp only [lowered, Nat.add_right_comm]
  · rfl

/-- Behind whole lines a line starts. -/
theorem start_after_lines (file : Option String) {cs : List Char}
    (h : ∀ c ∈ cs.getLast?, c = '\n') :
    (start file).after cs = (start file).lowered (cs.count '\n') := by
  have hcolumn : cs.reverse.takeWhile (· ≠ '\n') = [] := by
    cases hcs : cs.reverse with
    | nil => rfl
    | cons c ds =>
      have hc : c = '\n' := h c (by rw [List.getLast?_eq_head?_reverse, hcs]; rfl)
      rw [hc, List.takeWhile_cons_of_neg (by simp)]
  rw [start_after, behind, hcolumn]
  rfl

end Position

theorem Fragment.place_append (p : Position) (pieces others : List (List Char)) :
    place p (pieces ++ others) = place p pieces ++ place (p.after pieces.flatten) others := by
  induction pieces generalizing p with
  | nil => rfl
  | cons piece pieces ih =>
    rw [List.cons_append, place, ih, List.flatten_cons, Position.after_append]
    rfl

namespace Token

/-! ## Lexing behind a line end -/

theorem quoted_of_layOut {ts out : List Token} (h : layOut ts = .ok out) :
    (Region.along {} ts).quoted = false := by
  obtain ⟨grouped, hgrouped, -⟩ := map_eq_ok_iff.mp h
  obtain ⟨joined, hjoined, -⟩ := map_eq_ok_iff.mp hgrouped
  have hregion := along_of_joinStringsFrom hjoined false
  exact congrArg Region.quoted hregion

/-- What stands in front of a line end, with it, goes through the passes by itself. -/
theorem layOut_lineEnd {ts out : List Token} {t : Token} (ht : t.kind = .newLine)
    (h : layOut (ts ++ [t]) = .ok out) (us : List Token) :
    layOut (ts ++ t :: us) = (layOut us).map (out ++ ·) := by
  have hquoted : (Region.along {} ts).quoted = false := by
    have hlast : Region.along {} (ts ++ [t]) = (Region.along {} ts).next t.kind := by
      rw [Region.along, List.foldl_append]
      rfl
    have hclosed := quoted_of_layOut h
    rw [hlast, Region.next, if_neg (by rw [ht]; decide)] at hclosed
    split at hclosed
    · exact hclosed
    · exact hclosed
  obtain ⟨front, hfront⟩ := group_lineEnd hquoted ht
  -- The line end keeps array types apart and leaves no statement open.
  have hlay : ∀ others : List Token,
      dropBlanks (endStatements (joinArrayTypes (front ++ t :: others))) =
        dropBlanks (endStatements (joinArrayTypes (front ++ [t]))) ++
          dropBlanks (endStatements (joinArrayTypes others)) := by
    intro others
    have hclose : t.kind ≠ .closeSquare := by rw [ht]; decide
    have htype : t.kind ≠ .stringType := by rw [ht]; decide
    have hopen : t.kind ≠ .openSquare := by rw [ht]; decide
    have hcontinues : (settled none (joinArrayTypes front ++ [t])).all Kind.continues = true := by
      rw [settled_append_cons, ht]
      exact settle_continues (.inl rfl) _
    rw [joinArrayTypes_append (apart_cons hclose htype front others),
      joinArrayTypes_append (apart_cons hclose htype front []), joinArrayTypes_of_ne hopen,
      joinArrayTypes_of_ne hopen, ← List.singleton_append, ← List.append_assoc, endStatements,
      endStatementsAfter_append, endStatementsAfter_of_continues hcontinues, dropBlanks_append]
    rfl
  have hout : out = dropBlanks (endStatements (joinArrayTypes (front ++ [t]))) := by
    rw [layOut, hfront []] at h
    exact (Except.ok.inj h).symm
  rw [layOut, layOut, hfront us, hout]
  cases group us with
  | error e => rfl
  | ok others => exact congrArg Except.ok (hlay others)

end Token

/-! ## Building behind statements -/

namespace Builder

/-- Statements in front become their nodes, and the rest is built as if it stood alone. -/
theorem result_nodesBy_append {rules : List Rule} {Statement : List Token → Node → Prop}
    (hsteps : Steps rules Statement) (hterm : Terminated Statement) (scope : Scope)
    (lenient : Bool) (offset offset' : Nat) {ts : List Token} {nodes : List Node}
    (h : Statements Statement ts nodes) (us : List Token) :
    (nodesBy scope lenient rules offset (ts ++ us)).result =
      (nodesBy scope lenient rules offset' us).result.map (nodes ++ ·) := by
  induction h generalizing offset with
  | nil =>
    rw [List.nil_append, result_nodesBy_offset scope lenient rules offset offset']
    cases (nodesBy scope lenient rules offset' us).result <;> rfl
  | semicolon hkind _ ih => rw [List.cons_append, result_nodesBy_semicolon _ _ _ _ hkind, ih]
  | statement hs _ ih =>
    rw [List.append_assoc, result_nodesBy_statement hsteps hterm scope lenient offset 0 hs, ih]
    cases (nodesBy scope lenient rules offset' us).result <;> rfl

theorem result_build_append {b : Builder} (hscope : b.scope = .topLevel)
    (hstrict : b.options.lenient = false) {ts : List Token} {program : Program}
    (h : (b.build ts).result = .ok program) (us : List Token) :
    (b.build (ts ++ us)).result =
      (b.build us).result.map fun others => ⟨program.children ++ others.children⟩ := by
  rw [build, result_buildBy, hstrict] at h
  obtain ⟨nodes, hnodes, rfl⟩ := map_eq_ok_iff.mp h
  have hstatements := statements_of_nodesBy (rules_steps hscope) (outer_terminated b) _ hnodes
  rw [build, build, result_buildBy, result_buildBy, result_nodesBy_append (rules_steps hscope)
    (outer_terminated b) b.scope b.options.lenient 0 0 hstatements us]
  cases (nodesBy b.scope b.options.lenient b.rules 0 us).result <;> rfl

end Builder

/-! ## Sources -/

namespace Compiler

theorem standsAt_of_parse {config : Config} {file : Option String} {source : String}
    {e : CompileError} (h : (parse config file source).result = .error e) :
    ∃ p, e.StandsAt p := by
  rw [result_parse] at h
  obtain htokens | ⟨ts, -, hbuild⟩ := bind_eq_error_iff.mp h
  · rw [result_tokens] at htokens
    obtain ⟨-, p, rfl⟩ := Token.quoted_of_joinStringsFrom (map_eq_error_iff.mp htokens) false
    exact ⟨p, .malformed _⟩
  · obtain ⟨t, -, hat⟩ := Builder.standsAmong_build rfl hbuild
    exact ⟨t.position, hat⟩

/-- Whole lines go through the passes by themselves. -/
theorem layOut_lines {file : Option String} {front : List Char} {ts : List Token}
    (hend : ∀ c ∈ front.getLast?, c = '\n')
    (h : Token.layOut ((Fragment.place (.start file) (Fragment.split front)).map
      (Token.ofFragment Token.Rule.standard)) = .ok ts) (us : List Token) :
    Token.layOut ((Fragment.place (.start file) (Fragment.split front)).map
      (Token.ofFragment Token.Rule.standard) ++ us) = (Token.layOut us).map (ts ++ ·) := by
  obtain rfl | ⟨before, c, rfl⟩ := front.eq_nil_or_concat
  · cases h
    cases hus : Token.layOut us <;> exact hus
  · rw [List.concat_eq_append] at hend h ⊢
    obtain rfl := hend c List.getLast?_concat
    have hseparator : ∀ c ∈ ['\n'].head?, isSeparator c = true := by
      rintro c ⟨⟩
      decide
    rw [Fragment.split_append (.inr hseparator), Fragment.place_append, List.map_append] at h ⊢
    rw [List.append_assoc]
    exact Token.layOut_lineEnd (t := Token.ofFragment Token.Rule.standard ⟨"\n", _⟩) rfl h us

/-- Behind whole lines the tokens of a source are the same, further down. -/
theorem result_tokens_append {file : Option String} {front back : String} {ts : List Token}
    (hend : ∀ c ∈ front.toList.getLast?, c = '\n') (h : (tokens file front).result = .ok ts) :
    (tokens file (front ++ back)).result =
      mapBoth (CompileError.moved (Position.lowered (front.toList.count '\n')))
        (fun us => ts ++ us.map (Token.moved (Position.lowered (front.toList.count '\n'))))
        (tokens file back).result := by
  have hboundary : ∀ c ∈ front.toList.getLast?, isSeparator c = true := by
    intro c hc
    rw [hend c hc]
    decide
  rw [result_tokens_eq_layOut] at h
  rw [result_tokens_eq_layOut, result_tokens_eq_layOut, Fragment.ofSource, String.toList_append,
    Fragment.split_append (.inl hboundary), Fragment.place_append, Fragment.split_flatten,
    Position.start_after_lines file hend, List.map_append,
    Token.place_of_advance (Position.advance_lowered _),
    layOut_lines hend h, Token.layOut_moved, Fragment.ofSource]
  cases Token.layOut ((Fragment.place (.start file) (Fragment.split back.toList)).map
    (Token.ofFragment Token.Rule.standard)) <;> rfl

/-- Behind whole lines that are a program, a source is built as if it stood alone. -/
theorem result_parse_append {config : Config} (hstrict : config.settings.lenient = false)
    {file : Option String} {front back : String} (hend : ∀ c ∈ front.toList.getLast?, c = '\n')
    {first : Program} (h : (parse config file front).result = .ok first) :
    (parse config file (front ++ back)).result =
      mapBoth (CompileError.moved (Position.lowered (front.toList.count '\n')))
        (fun second => ⟨first.children ++
          second.children.map (Node.moved (Position.lowered (front.toList.count '\n')))⟩)
        (parse config file back).result := by
  rw [result_parse] at h
  obtain ⟨ts, hts, hbuild⟩ := bind_eq_ok_iff.mp h
  rw [result_parse, result_parse, result_tokens_append hend hts]
  apply bind_mapBoth
  intro us
  rw [Builder.result_build_append rfl hstrict hbuild, Builder.result_build_moved]
  cases (({ options := config.buildOptions } : Builder).build us).result <;> rfl

/-- Parsing is compositional. Behind a source that parses and that is empty or ends in a line end,
any source parses exactly if it parses alone. The children of both follow one another, and an error
is the same error as many lines further down, in the same column. -/
theorem parse_behind_lines (config : Config) (hstrict : config.settings.lenient = false)
    (file : Option String) (front back : String)
    (hend : front = "" ∨ front.toList.getLast? = some '\n') (first : Program)
    (hfirst : (parse config file front).result = .ok first) :
    ((∃ both, (parse config file (front ++ back)).result = .ok both) ↔
      ∃ second, (parse config file back).result = .ok second) ∧
    (∀ second, (parse config file back).result = .ok second →
      (parse config file (front ++ back)).result = .ok ⟨first.children ++
        second.children.map (Node.moved (Position.lowered (front.toList.count '\n')))⟩) ∧
    ∀ e, (parse config file back).result = .error e → ∃ p : Position,
      (∃ fault, e = .malformed fault (some p) ∧
        (parse config file (front ++ back)).result = .error
          (.malformed fault (some { p with line := p.line + front.toList.count '\n' }))) ∨
      (∃ limit, e = .nestingTooDeep limit (some p) ∧
        (parse config file (front ++ back)).result = .error
          (.nestingTooDeep limit (some { p with line := p.line + front.toList.count '\n' }))) := by
  have hlast : ∀ c ∈ front.toList.getLast?, c = '\n' := by
    obtain rfl | hend := hend
    · rintro c ⟨⟩
    · intro c hc
      exact Option.some.inj (hc.symm.trans hend)
  have hboth : (parse config file (front ++ back)).result = _ :=
    result_parse_append hstrict hlast hfirst
  cases hback : (parse config file back).result with
  | ok second =>
    rw [hback] at hboth
    refine ⟨⟨fun _ => ⟨second, rfl⟩, fun _ => ⟨_, hboth⟩⟩, ?_, ?_⟩
    · rintro _ ⟨⟩
      exact hboth
    · rintro e ⟨⟩
  | error e =>
    rw [hback] at hboth
    refine ⟨⟨?_, ?_⟩, ?_, ?_⟩
    · rintro ⟨both, hok⟩
      cases hboth.symm.trans hok
    · rintro ⟨second, ⟨⟩⟩
    · rintro second ⟨⟩
    · rintro _ ⟨⟩
      obtain ⟨p, hat⟩ := standsAt_of_parse hback
      refine ⟨p, ?_⟩
      cases hat with
      | malformed fault => exact .inl ⟨fault, rfl, hboth⟩
      | nestingTooDeep limit => exact .inr ⟨limit, rfl, hboth⟩

/-- Behind a line with a comment and one with an import, a brace that closes nothing. -/
theorem parse_behind_lines_stray_brace :
    (parse {} none ("# c\nimport ls\n" ++ "\n \x7d")).result =
      .error (.malformed (.unexpected "\x7d") (some ⟨none, 4, 2⟩)) := by
  have hfirst : (parse {} none "# c\nimport ls\n").result = .ok
      ⟨[.comment " c", .importing ⟨"ls", none, ⟨none, 2, 1⟩⟩]⟩ := by cbv
  have hback : (parse {} none "\n \x7d").result =
      .error (.malformed (.unexpected "\x7d") (some ⟨none, 2, 2⟩)) := by cbv
  obtain ⟨p, ⟨fault, he, h⟩ | ⟨limit, he, -⟩⟩ := (parse_behind_lines {} rfl none
    "# c\nimport ls\n" "\n \x7d" (.inr (by cbv)) _ hfirst).2.2 _ hback
  · cases he
    exact h
  · cases he

end Compiler

end CheckedScript
