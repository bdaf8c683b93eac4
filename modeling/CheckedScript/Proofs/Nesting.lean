import CheckedScript.Proofs.Simulation
import CheckedScript.Proofs.Tree
import CheckedScript.Proofs.WellFormed

/-!
The nesting limit. Bodies hold no functions, so every limit but zero builds the same, and with
zero there is no function in what is built.

Main result:
* `Compiler.parse_wellFormed_whatever_limit`: what is parsed is well formed, under any limit.
-/

namespace CheckedScript

open Grammar

namespace Builder

/-- The function rules of two builders agree if both have room for a body. -/
theorem buildFunction_follows {b b' : Builder} (hlenient : b'.options.lenient = b.options.lenient)
    (hdepth : b.depth + 1 ≤ b.options.maxDepth) (hdepth' : b'.depth + 1 ≤ b'.options.maxDepth)
    (name : String) :
    Rule.Follows id id id ⟨name, functionPattern, b.buildFunction⟩
      ⟨name, functionPattern, b'.buildFunction⟩ := by
  refine ⟨rfl, fun ts => ?_⟩
  rw [List.map_id, mapBoth_id]
  show (b'.buildFunction ts).result = (b.buildFunction ts).result
  simp only [result_buildFunction, if_pos hdepth, if_pos hdepth', hlenient]

theorem follows_refl (rule : Rule) : rule.Follows id id id rule :=
  ⟨rfl, fun ts => by rw [List.map_id, mapBoth_id]⟩

theorem result_build_of_depth {b b' : Builder} (hscope : b'.scope = b.scope)
    (hlenient : b'.options.lenient = b.options.lenient)
    (hdepth : b.depth + 1 ≤ b.options.maxDepth) (hdepth' : b'.depth + 1 ≤ b'.options.maxDepth)
    (ts : List Token) : (b'.build ts).result = (b.build ts).result := by
  have hrules : List.Forall₂ (Rule.Follows id id id) b.rules b'.rules := by
    rw [rules, rules, hscope]
    cases b.scope with
    | topLevel =>
      exact .cons (follows_refl _) (.cons (follows_refl _)
        (.cons (buildFunction_follows hlenient hdepth hdepth' _) .nil))
    | functionBody => exact .cons (follows_refl _) (.cons (follows_refl _) .nil)
  have hnodes := @result_nodesBy_follows id id id (fun _ => rfl) _ _ hrules b.scope
    (fun t ts => by rw [List.map_id]; rfl) b.options.lenient 0 ts
  rw [List.map_id, List.map_id_fun, mapBoth_id] at hnodes
  rw [build, build, result_buildBy, result_buildBy, hscope, hlenient, hnodes]

/-- A builder without room for a body makes no function. -/
theorem not_function_of_build {b : Builder} (hscope : b.scope = .topLevel)
    (hdepth : b.options.maxDepth ≤ b.depth) {ts : List Token} {program : Program}
    (h : (b.build ts).result = .ok program) :
    ∀ node ∈ program.children, ∀ signature body, node ≠ .function signature body := by
  rw [build, result_buildBy] at h
  obtain ⟨nodes, hnodes, rfl⟩ := map_eq_ok_iff.mp h
  refine forall_mem_of_nodesBy (P := fun _ => True) (rules_steps hscope) (outer_terminated b) ?_
    (fun _ _ => trivial) hnodes
  rintro span node - (hs | hs | hs) signature body rfl
  · cases hs
  · cases hs
  · cases hs with
    | intro _ _ _ _ _ _ _ _ _ hbody =>
      have := hbody.1
      omega

end Builder

namespace Compiler

/-- What a source is parsed to is well formed. The nesting limit makes no difference unless it is
zero, which leaves no function. -/
theorem parse_wellFormed_whatever_limit (config : Config) (file : Option String)
    (source : String) :
    (∀ program, (parse config file source).result = .ok program →
      ∀ node ∈ program.children, node.AtTopLevel) ∧
    (∀ other : Config, other.settings.lenient = config.settings.lenient →
      1 ≤ config.settings.maxDepth → 1 ≤ other.settings.maxDepth →
      (parse other file source).result = (parse config file source).result) ∧
    (config.settings.maxDepth = 0 → ∀ program, (parse config file source).result = .ok program →
      ∀ node ∈ program.nodes, ∀ signature body, node ≠ .function signature body) := by
  refine ⟨fun program => atTopLevel_of_parse, ?_, ?_⟩
  · intro other hlenient hdepth hdepth'
    rw [parse, parse, Run.result_bind, Run.result_bind]
    congr 1
    funext ts
    refine Builder.result_build_of_depth ?_ hlenient ?_ ?_ ts
    · rfl
    · exact hdepth
    · exact hdepth'
  · intro hzero program hprogram node hnode signature body
    obtain ⟨child, hchild, hnode⟩ := List.mem_flatMap.mp hnode
    obtain ⟨ts, -, hbuild⟩ := Run.result_bind_eq_ok_iff.mp hprogram
    have hfunction := Builder.not_function_of_build rfl (Nat.le_of_eq hzero) hbuild child hchild
    cases atTopLevel_of_parse hprogram child hchild with
    | importing | comment => rw [List.mem_singleton.mp hnode]; nofun
    | function => exact absurd rfl (hfunction _ _)

end Compiler

end CheckedScript
