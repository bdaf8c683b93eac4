import CheckedScript.Compiler
import CheckedScript.Proofs.Leniency
import CheckedScript.Proofs.Tree

/-!
What a compilation reports. No stage makes a build record: the record of a build is written once,
by whoever asked for the compilation.

Main result:
* `Compiler.unrecorded_compileBy`: the log of a compilation holds no build record.
-/

namespace CheckedScript

namespace Run

variable {α β : Type}

/-- The log of a run holds no build record. -/
def Unrecorded (x : Run α) : Prop := ∀ entry ∈ x.log, entry.origin ≠ .buildRecord

theorem unrecorded_of_log {x : Run α} (h : x.log = []) : x.Unrecorded := by
  intro entry hmem
  rw [h] at hmem
  cases hmem

theorem unrecorded_report {origin : Log.Origin} (h : origin ≠ .buildRecord) (level : Log.Level)
    (message : String) : (report level origin message).Unrecorded := by
  intro entry hmem
  obtain rfl := List.mem_singleton.mp hmem
  exact h

theorem Unrecorded.bind {x : Run α} {f : α → Run β} (hx : x.Unrecorded)
    (hf : ∀ a, (f a).Unrecorded) : (x >>= f).Unrecorded := by
  cases h : x.result with
  | error e =>
    rw [bind_of_error h]
    exact hx
  | ok a =>
    rw [bind_of_ok h]
    intro entry hmem
    obtain hmem | hmem := List.mem_append.mp hmem
    · exact hx entry hmem
    · exact hf a entry hmem

end Run

open Run

/-! ## Lexing -/

namespace Token

theorem unrecorded_runPasses (passes : List Pass) (ts : List Token) :
    (runPasses passes ts).Unrecorded := by
  induction passes generalizing ts with
  | nil => exact unrecorded_of_log rfl
  | cons pass passes ih =>
    refine (unrecorded_of_log rfl).bind fun ts => ?_
    exact (unrecorded_report (by decide) _ _).bind fun _ => ih ts

end Token

theorem Compiler.unrecorded_tokens (file : Option String) (source : String) :
    (tokens file source).Unrecorded := by
  refine (unrecorded_report (by decide) _ _).bind fun _ => ?_
  exact (unrecorded_report (by decide) _ _).bind fun _ => Token.unrecorded_runPasses _ _

/-! ## Building -/

namespace Builder

theorem unrecorded_stepBy {rules : List Rule}
    (hrules : ∀ rule ∈ rules, ∀ ts, (rule.build ts).Unrecorded) (offset : Nat) (ts : List Token) :
    (stepBy offset ts rules).Unrecorded := by
  induction rules with
  | nil => exact unrecorded_of_log rfl
  | cons rule rules ih =>
    obtain ⟨hrule, hrest⟩ := List.forall_mem_cons.mp hrules
    rw [stepBy]
    split
    · refine (unrecorded_report (by decide) _ _).bind fun _ => ?_
      exact (hrule _).bind fun _ => unrecorded_of_log rfl
    · exact ih hrest

theorem unrecorded_nodesBy {rules : List Rule}
    (hrules : ∀ rule ∈ rules, ∀ ts, (rule.build ts).Unrecorded) (scope : Scope) (lenient : Bool)
    (offset : Nat) (ts : List Token) : (nodesBy scope lenient rules offset ts).Unrecorded := by
  induction hlen : ts.length using Nat.strongRecOn generalizing ts offset with
  | ind length ih =>
    subst hlen
    cases ts with
    | nil =>
      rw [nodesBy]
      exact unrecorded_of_log rfl
    | cons t ts =>
      rw [nodesBy]
      split
      · exact ih _ (by simp) _ _ rfl
      · refine (unrecorded_stepBy hrules offset (t :: ts)).bind fun found => ?_
        rcases found with _ | ⟨node, n⟩
        · cases lenient with
          | false => exact unrecorded_of_log rfl
          | true =>
            exact (unrecorded_report (by decide) _ _).bind fun _ => ih _ (by simp) _ _ rfl
        · have hshort : (ts.drop (n - 1)).length < (t :: ts).length := by
            simp only [List.length_drop, List.length_cons]
            omega
          exact (ih _ hshort _ _ rfl).bind fun _ => unrecorded_of_log rfl

theorem unrecorded_buildBy {rules : List Rule}
    (hrules : ∀ rule ∈ rules, ∀ ts, (rule.build ts).Unrecorded) (b : Builder) (ts : List Token) :
    (b.buildBy rules ts).Unrecorded := by
  refine (unrecorded_nodesBy hrules _ _ 0 ts).bind fun nodes => ?_
  exact (unrecorded_report (by decide) _ _).bind fun _ => unrecorded_of_log rfl

theorem unrecorded_body : ∀ rule ∈ Rule.body, ∀ ts, (rule.build ts).Unrecorded := by
  simp only [Rule.body, List.forall_mem_cons]
  exact ⟨fun _ => unrecorded_of_log rfl, fun _ => unrecorded_of_log rfl,
    fun _ hmem => absurd hmem List.not_mem_nil⟩

theorem unrecorded_buildFunction (b : Builder) (ts : List Token) :
    (b.buildFunction ts).Unrecorded := by
  refine (unrecorded_of_log rfl).bind fun declaration => ?_
  refine (unrecorded_of_log rfl).bind fun inner => ?_
  exact (unrecorded_buildBy unrecorded_body inner _).bind fun _ => unrecorded_of_log rfl

theorem unrecorded_build (b : Builder) (ts : List Token) : (b.build ts).Unrecorded := by
  refine unrecorded_buildBy ?_ b ts
  rw [rules]
  cases b.scope with
  | topLevel =>
    simp only [List.forall_mem_cons]
    exact ⟨fun _ => unrecorded_of_log rfl, fun _ => unrecorded_of_log rfl,
      b.unrecorded_buildFunction, fun _ hmem => absurd hmem List.not_mem_nil⟩
  | functionBody => exact unrecorded_body

end Builder

theorem Compiler.unrecorded_parse (config : Config) (file : Option String) (source : String) :
    (parse config file source).Unrecorded :=
  (unrecorded_tokens file source).bind fun _ => Builder.unrecorded_build _ _

/-! ## Resolution and generation -/

theorem Command.unrecorded_resolve (imports : List Import) (command : Command) :
    ∀ entry ∈ (command.resolve imports).log, entry.origin ≠ .buildRecord := by
  unfold resolve
  split
  · nofun
  · intro entry hmem
    obtain rfl := List.mem_singleton.mp hmem
    simp
  · nofun

namespace Node

theorem unrecorded_resolveAll {imports : List Import} {nodes : List Node}
    (h : ∀ node ∈ nodes, ∀ entry ∈ (node.resolve imports).log, entry.origin ≠ .buildRecord) :
    ∀ entry ∈ (resolveAll imports nodes).log, entry.origin ≠ .buildRecord := by
  induction nodes with
  | nil => nofun
  | cons node rest ih =>
    obtain ⟨hfirst, hrest⟩ := List.forall_mem_cons.mp h
    rw [resolveAll]
    dsimp only
    split
    · exact hfirst
    · exact List.forall_mem_append.mpr ⟨hfirst, ih hrest⟩

theorem unrecorded_resolve (imports : List Import) (node : Node) :
    ∀ entry ∈ (node.resolve imports).log, entry.origin ≠ .buildRecord := by
  induction node with
  | root children ih => rw [resolve]; exact unrecorded_resolveAll ih
  | function signature body ih => rw [resolve]; exact unrecorded_resolveAll ih
  | invocation command => exact command.unrecorded_resolve imports
  | expression command => exact command.unrecorded_resolve imports
  | importing | param | comment => nofun

end Node

theorem Program.unrecorded_resolve (program : Program) : program.resolve.toRun.Unrecorded :=
  List.forall_mem_cons.mpr ⟨by simp,
    Node.unrecorded_resolveAll fun node _ => node.unrecorded_resolve program.imports⟩

theorem Script.unrecorded_generateBy (valid : String → Bool) (options : Options)
    (program : Program) : (generateBy valid options program).Unrecorded := by
  refine (unrecorded_of_log rfl).bind fun guards => ?_
  refine (unrecorded_of_log rfl).bind fun top => ?_
  have hjudge : ∀ script : String, (if options.verify then
        if valid script then do
          Run.report .debug .generation "generated script parsed cleanly"
          return script
        else Run.fail (.generation .invalidScript none)
      else return script : Run String).Unrecorded := by
    intro script
    split
    · split
      · exact (unrecorded_report (by decide) _ _).bind fun _ => unrecorded_of_log rfl
      · exact unrecorded_of_log rfl
    · exact unrecorded_of_log rfl
  dsimp only
  cases top.main with
  | none =>
    refine (unrecorded_report (by decide) _ _).bind fun _ => ?_
    exact (unrecorded_of_log rfl).bind fun main => hjudge _
  | some body =>
    refine (unrecorded_of_log rfl).bind fun text => ?_
    exact (unrecorded_of_log rfl).bind fun main => hjudge _

theorem Compiler.unrecorded_compileBy (valid : String → Bool) (config : Config)
    (file : Option String) (source : String) :
    (compileBy valid config file source).Unrecorded := by
  refine (unrecorded_parse config file source).bind fun program => ?_
  exact program.unrecorded_resolve.bind fun resolved => Script.unrecorded_generateBy _ _ resolved

end CheckedScript
