import CheckedScript.Proofs.Relocation

/-!
The file label only labels positions. Under another label a source has the same tokens, the same
program and the same script, or fails with the same error; what carries a position carries the new
label and stands at the same line and column.

Main result:
* `Compiler.label_only_labels`: tokens, program and script under two labels.
-/

namespace CheckedScript

namespace Position

/-- The same line and column under another label. -/
def relabelled (file : Option String) (p : Position) : Position := { p with file }

theorem advance_relabelled (file : Option String) (p : Position) (c : Char) :
    (p.relabelled file).advance c = (p.advance c).relabelled file := by
  unfold advance
  split <;> rfl

theorem start_relabelled (file file' : Option String) :
    (start file).relabelled file' = start file' := rfl

/-- The line and the column. -/
def place (p : Position) : Nat × Nat := (p.line, p.column)

theorem place_relabelled (file : Option String) (p : Position) :
    (p.relabelled file).place = p.place := rfl

end Position

theorem CompileError.position_moved (f : Position → Position) (e : CompileError) :
    (e.moved f).position = e.position.map f := by
  -- A generation error stands where its cause does, so the induction is on the chain of causes.
  fun_induction CompileError.moved f e with
  | case6 fault cause ih => exact ih
  | _ => rfl

namespace Compiler

theorem result_tokens_relabelled (file file' : Option String) (source : String) :
    (tokens file' source).result =
      mapBoth (CompileError.moved (Position.relabelled file'))
        (List.map (Token.moved (Position.relabelled file'))) (tokens file source).result := by
  rw [result_tokens_eq_layOut, result_tokens_eq_layOut, ← Token.layOut_moved, Fragment.ofSource,
    Fragment.ofSource, ← Token.place_of_advance (Position.advance_relabelled file'),
    Position.start_relabelled]

theorem result_parse_relabelled (config : Config) (file file' : Option String) (source : String) :
    (parse config file' source).result =
      mapBoth (CompileError.moved (Position.relabelled file'))
        (Program.moved (Position.relabelled file')) (parse config file source).result := by
  rw [result_parse, result_parse, result_tokens_relabelled file file']
  apply bind_mapBoth
  intro ts
  exact Builder.result_build_moved _ ts

theorem result_compileBy_relabelled (valid : String → Bool) (config : Config)
    (file file' : Option String) (source : String) :
    (compileBy valid config file' source).result =
      mapBoth (CompileError.moved (Position.relabelled file')) id
        (compileBy valid config file source).result := by
  rw [result_compileBy, result_compileBy, result_tokens_relabelled file file']
  exact bind_mapBoth (scriptOf_moved valid config) _

/-- Under two labels a source has the same script, or the same error at the same line and column;
its tokens and its program differ in the labels of their positions only. -/
theorem label_only_labels (valid : String → Bool) (config : Config) (file file' : Option String)
    (source : String) :
    (tokens file' source).result =
        mapBoth (CompileError.moved (Position.relabelled file'))
          (List.map (Token.moved (Position.relabelled file'))) (tokens file source).result ∧
      (parse config file' source).result =
        mapBoth (CompileError.moved (Position.relabelled file'))
          (Program.moved (Position.relabelled file')) (parse config file source).result ∧
      ((∃ script, (compileBy valid config file source).result = .ok script ∧
          (compileBy valid config file' source).result = .ok script) ∨
        ∃ e e', (compileBy valid config file source).result = .error e ∧
          (compileBy valid config file' source).result = .error e' ∧
          e' = e.moved (Position.relabelled file') ∧
          e'.position.map Position.place = e.position.map Position.place) := by
  refine ⟨result_tokens_relabelled file file' source,
    result_parse_relabelled config file file' source, ?_⟩
  have hcompile := result_compileBy_relabelled valid config file file' source
  cases h : (compileBy valid config file source).result with
  | ok script =>
    rw [h] at hcompile
    exact .inl ⟨script, rfl, hcompile⟩
  | error e =>
    rw [h] at hcompile
    refine .inr ⟨e, _, rfl, hcompile, rfl, ?_⟩
    rw [CompileError.position_moved, Option.map_map]
    exact congrArg (Option.map · e.position) (funext (Position.place_relabelled file'))

end Compiler

end CheckedScript
