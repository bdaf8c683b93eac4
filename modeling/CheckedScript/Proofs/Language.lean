import Mathlib
import CheckedScript.Proofs.Building

/-!
The language of programs, as a set of lists of kinds, and strict parsing: a strict builder accepts
exactly the tokens whose kinds are in the language, and builds the one list of nodes that is
derived from them.

Main results:
* `Grammar.Spelling.mem_program_iff`: the kinds of a program.
* `strict_build_accepts_program`: strict building accepts the language.

The builder needs room for one level; with none it accepts no function.
-/

namespace CheckedScript

open Token (Kind)
open Computability

namespace Grammar

/-! ## The language -/

namespace Spelling

def one (kind : Kind) : Language Kind := {[kind]}

/-- `import name (as alias)? ';'+` -/
def importing : Language Kind :=
  one .importKeyword * (one .identifier * ((1 + one .asKeyword * one .identifier) *
    (one .semicolon * (one .semicolon)∗)))

/-- `comment ';'*` -/
def comment : Language Kind := one .comment * (one .semicolon)∗

def typeName : Language Kind := one .stringType + one .stringArrayType

/-- `(',' | ';' | name ':'* type)*` -/
def params : Language Kind :=
  (one .comma + one .semicolon + one .identifier * ((one .colon)∗ * typeName))∗

/-- Anything but a closing bracket. -/
def inside : Language Kind := {kinds | Kind.closeSquare ∉ kinds}

/-- `'$' name '[' inside ']' ';'*` -/
def invocation : Language Kind :=
  one .execMarker * (one .identifier * (one .openSquare * (inside * (one .closeSquare *
    (one .semicolon)∗))))

def balanced : Language Kind := {kinds | Pattern.Balanced .openBrace .closeBrace kinds}

/-- `(';' | comment | invocation)*`, with balanced braces. -/
def body : Language Kind := (one .semicolon + (comment + invocation))∗ ⊓ balanced

/-- `name ':' '(' params ')' ':' type? '{' body '}' ';'*` -/
def function : Language Kind :=
  one .identifier * (one .colon * (one .openParen * (params * (one .closeParen * (one .colon *
    ((1 + typeName) * (one .openBrace * (body * (one .closeBrace * (one .semicolon)∗)))))))))

/-- `(';' | import | comment | function)*` -/
def program : Language Kind := (one .semicolon + (importing + comment + function))∗

/-! ## Cutting tokens by their kinds -/

variable {ts : List Token} {L M : Language Kind}

theorem mem_one_iff {kind : Kind} :
    ts.map (·.kind) ∈ one kind ↔ ∃ t, ts = [t] ∧ t.kind = kind := by
  show ts.map (·.kind) = [kind] ↔ _
  exact List.map_eq_singleton_iff

theorem mem_mul_iff :
    ts.map (·.kind) ∈ L * M ↔
      ∃ us vs, ts = us ++ vs ∧ us.map (·.kind) ∈ L ∧ vs.map (·.kind) ∈ M := by
  rw [Language.mem_mul]
  constructor
  · rintro ⟨a, ha, b, hb, hab⟩
    obtain ⟨us, vs, rfl, rfl, rfl⟩ := List.map_eq_append_iff.mp hab.symm
    exact ⟨us, vs, rfl, ha, hb⟩
  · rintro ⟨us, vs, rfl, hus, hvs⟩
    exact ⟨_, hus, _, hvs, List.map_append.symm⟩

theorem mem_one_mul_iff {kind : Kind} :
    ts.map (·.kind) ∈ one kind * M ↔
      ∃ t vs, ts = t :: vs ∧ t.kind = kind ∧ vs.map (·.kind) ∈ M := by
  rw [mem_mul_iff]
  constructor
  · rintro ⟨us, vs, rfl, hus, hvs⟩
    obtain ⟨t, rfl, ht⟩ := mem_one_iff.mp hus
    exact ⟨t, vs, rfl, ht, hvs⟩
  · rintro ⟨t, vs, rfl, ht, hvs⟩
    exact ⟨[t], vs, rfl, mem_one_iff.mpr ⟨t, rfl, ht⟩, hvs⟩

theorem append_mem_kstar {us vs : List Token} (hus : us.map (·.kind) ∈ L)
    (hvs : vs.map (·.kind) ∈ L∗) : (us ++ vs).map (·.kind) ∈ L∗ := by
  rw [← Language.one_add_self_mul_kstar_eq_kstar]
  exact Or.inr (mem_mul_iff.mpr ⟨us, vs, rfl, hus, hvs⟩)

theorem kstar_induction {P : List Token → Prop} (nil : P [])
    (append : ∀ us vs, us.map (·.kind) ∈ L → P vs → P (us ++ vs)) (h : ts.map (·.kind) ∈ L∗) :
    P ts := by
  obtain ⟨pieces, hpieces, hmem⟩ := Language.mem_kstar.mp h
  induction pieces generalizing ts with
  | nil =>
    have : ts = [] := by simpa using hpieces
    exact this ▸ nil
  | cons piece pieces ih =>
    rw [List.flatten_cons] at hpieces
    obtain ⟨us, vs, rfl, rfl, hvs⟩ := List.map_eq_append_iff.mp hpieces
    have hrest : ∀ y ∈ pieces, y ∈ L := fun y hy => hmem y (List.mem_cons_of_mem _ hy)
    refine append us vs (hmem _ List.mem_cons_self) (ih ?_ hvs hrest)
    exact hvs ▸ Language.join_mem_kstar hrest

theorem mem_one_kstar_iff {kind : Kind} :
    ts.map (·.kind) ∈ (one kind)∗ ↔ ∀ t ∈ ts, t.kind = kind := by
  constructor
  · refine kstar_induction (P := fun ts => ∀ t ∈ ts, t.kind = kind) (by simp) fun us vs hus ih => ?_
    obtain ⟨t, rfl, ht⟩ := mem_one_iff.mp hus
    simpa [ht] using ih
  · intro h
    induction ts with
    | nil => exact Language.nil_mem_kstar _
    | cons t ts ih =>
      exact append_mem_kstar (mem_one_iff.mpr ⟨t, rfl, h t List.mem_cons_self⟩)
        (ih fun u hu => h u (List.mem_cons_of_mem _ hu))

theorem mem_semicolons_iff : ts.map (·.kind) ∈ (one .semicolon)∗ ↔ Semicolons ts :=
  mem_one_kstar_iff

/-- Any number of statements spells what their sequences derive. -/
theorem mem_statements_iff {Statement : List Token → Node → Prop}
    (hspell : ∀ us : List Token, us.map (·.kind) ∈ L ↔ ∃ node, Statement us node) :
    ts.map (·.kind) ∈ (one .semicolon + L)∗ ↔ ∃ nodes, Statements Statement ts nodes := by
  constructor
  · refine kstar_induction (P := fun ts => ∃ nodes, Statements Statement ts nodes) ⟨[], .nil⟩
      fun us vs hus ⟨nodes, hvs⟩ => ?_
    rcases hus with hus | hus
    · obtain ⟨t, rfl, ht⟩ := mem_one_iff.mp hus
      exact ⟨nodes, .semicolon ht hvs⟩
    · obtain ⟨node, hnode⟩ := (hspell us).mp hus
      exact ⟨node :: nodes, .statement hnode hvs⟩
  · rintro ⟨nodes, h⟩
    induction h with
    | nil => exact Language.nil_mem_kstar _
    | @semicolon t ts nodes ht _ ih =>
      have hfirst : [t].map (·.kind) ∈ one .semicolon + L := Or.inl (mem_one_iff.mpr ⟨t, rfl, ht⟩)
      exact append_mem_kstar hfirst ih
    | statement hnode _ ih => exact append_mem_kstar (Or.inr ((hspell _).mpr ⟨_, hnode⟩)) ih

/-! ## Each form of statement -/

theorem mem_typeName_iff :
    ts.map (·.kind) ∈ typeName ↔ ∃ t value, ts = [t] ∧ TypeKind t.kind value := by
  rw [typeName, Language.mem_add, mem_one_iff, mem_one_iff]
  constructor
  · rintro (⟨t, rfl, ht⟩ | ⟨t, rfl, ht⟩)
    · exact ⟨t, .string, rfl, ht ▸ .string⟩
    · exact ⟨t, .stringArray, rfl, ht ▸ .stringArray⟩
  · rintro ⟨t, value, rfl, ht⟩
    generalize hkind : t.kind = kind at ht
    cases ht with
    | string => exact Or.inl ⟨t, rfl, hkind⟩
    | stringArray => exact Or.inr ⟨t, rfl, hkind⟩

theorem mem_returnType_iff :
    ts.map (·.kind) ∈ 1 + typeName ↔ ∃ value, ReturnType ts value := by
  rw [Language.mem_add, Language.mem_one, List.map_eq_nil_iff, mem_typeName_iff]
  constructor
  · rintro (rfl | ⟨t, value, rfl, ht⟩)
    · exact ⟨none, .none⟩
    · exact ⟨some value, .some ht⟩
  · rintro ⟨_, ⟨⟩ | ht⟩
    · exact Or.inl rfl
    · exact Or.inr ⟨_, _, rfl, ht⟩

theorem mem_params_iff : ts.map (·.kind) ∈ params ↔ ∃ ps, Params ts ps := by
  constructor
  · refine kstar_induction (P := fun ts => ∃ ps, Params ts ps) ⟨[], .nil⟩
      fun us vs hus ⟨ps, hvs⟩ => ?_
    rcases hus with (hus | hus) | hus
    · obtain ⟨t, rfl, ht⟩ := mem_one_iff.mp hus
      exact ⟨ps, .separator (Or.inl ht) hvs⟩
    · obtain ⟨t, rfl, ht⟩ := mem_one_iff.mp hus
      exact ⟨ps, .separator (Or.inr ht) hvs⟩
    · obtain ⟨name, us, rfl, hname, hus⟩ := mem_one_mul_iff.mp hus
      obtain ⟨colons, us, rfl, hcolons, hus⟩ := mem_mul_iff.mp hus
      obtain ⟨type, value, rfl, htype⟩ := mem_typeName_iff.mp hus
      refine ⟨⟨name.text, value⟩ :: ps, ?_⟩
      have := Params.param hname (mem_one_kstar_iff.mp hcolons) htype hvs
      simpa using this
  · rintro ⟨ps, h⟩
    induction h with
    | nil => exact Language.nil_mem_kstar _
    | @separator t ts ps hkind _ ih =>
      have hfirst : [t].map (·.kind) ∈
          one .comma + one .semicolon + one .identifier * ((one .colon)∗ * typeName) := by
        rcases hkind with hkind | hkind
        · exact Or.inl (Or.inl (mem_one_iff.mpr ⟨t, rfl, hkind⟩))
        · exact Or.inl (Or.inr (mem_one_iff.mpr ⟨t, rfl, hkind⟩))
      exact append_mem_kstar hfirst ih
    | @param name type colons ts value ps hname hcolons htype _ ih =>
      have hfirst : (name :: (colons ++ [type])).map (·.kind) ∈
          one .comma + one .semicolon + one .identifier * ((one .colon)∗ * typeName) :=
        Or.inr (mem_one_mul_iff.mpr ⟨name, _, rfl, hname, mem_mul_iff.mpr ⟨colons, [type], rfl,
          mem_one_kstar_iff.mpr hcolons, mem_typeName_iff.mpr ⟨type, value, rfl, htype⟩⟩⟩)
      have hcut : name :: (colons ++ type :: ts) = name :: (colons ++ [type]) ++ ts := by simp
      rw [hcut]
      exact append_mem_kstar hfirst ih

theorem mem_importing_iff : ts.map (·.kind) ∈ importing ↔ ∃ node, ImportStatement ts node := by
  constructor
  · intro h
    obtain ⟨keyword, ts, rfl, hkeyword, h⟩ := mem_one_mul_iff.mp h
    obtain ⟨name, ts, rfl, hname, h⟩ := mem_one_mul_iff.mp h
    obtain ⟨pair, ends, rfl, hpair, h⟩ := mem_mul_iff.mp h
    obtain ⟨last, ends, rfl, hlast, hends⟩ := mem_one_mul_iff.mp h
    have hall := semicolons_cons.mpr ⟨hlast, mem_semicolons_iff.mp hends⟩
    rcases hpair with hpair | hpair
    · obtain rfl := List.map_eq_nil_iff.mp ((Language.mem_one _).mp hpair)
      exact ⟨_, .plain hkeyword hname (by simp) hall⟩
    · obtain ⟨mark, pair, rfl, hmark, hpair⟩ := mem_one_mul_iff.mp hpair
      obtain ⟨other, rfl, hother⟩ := mem_one_iff.mp hpair
      exact ⟨_, .aliased hkeyword hname hmark hother (by simp) hall⟩
  · rintro ⟨node, h⟩
    have hends : ∀ {ends}, ends ≠ [] → Semicolons ends →
        ends.map (·.kind) ∈ one .semicolon * (one .semicolon)∗ := by
      intro ends hne hall
      obtain ⟨last, ends, rfl⟩ := List.exists_cons_of_ne_nil hne
      obtain ⟨hlast, hall⟩ := semicolons_cons.mp hall
      exact mem_one_mul_iff.mpr ⟨last, ends, rfl, hlast, mem_semicolons_iff.mpr hall⟩
    cases h with
    | plain hkeyword hname hne hall =>
      exact mem_one_mul_iff.mpr ⟨_, _, rfl, hkeyword, mem_one_mul_iff.mpr ⟨_, _, rfl, hname,
        mem_mul_iff.mpr ⟨[], _, rfl, Or.inl rfl, hends hne hall⟩⟩⟩
    | @aliased _ _ mark other _ hkeyword hname hmark hother hne hall =>
      have hpair : [mark, other].map (·.kind) ∈ 1 + one .asKeyword * one .identifier :=
        Or.inr (mem_one_mul_iff.mpr ⟨mark, [other], rfl, hmark,
          mem_one_iff.mpr ⟨other, rfl, hother⟩⟩)
      exact mem_one_mul_iff.mpr ⟨_, _, rfl, hkeyword, mem_one_mul_iff.mpr ⟨_, _, rfl, hname,
        mem_mul_iff.mpr ⟨[mark, other], _, rfl, hpair, hends hne hall⟩⟩⟩

theorem mem_comment_iff : ts.map (·.kind) ∈ comment ↔ ∃ node, CommentStatement ts node := by
  constructor
  · intro h
    obtain ⟨t, ends, rfl, ht, hends⟩ := mem_one_mul_iff.mp h
    exact ⟨_, .intro ht (mem_semicolons_iff.mp hends)⟩
  · rintro ⟨_, ht, hends⟩
    exact mem_one_mul_iff.mpr ⟨_, _, rfl, ht, mem_semicolons_iff.mpr hends⟩

theorem mem_inside_iff : ts.map (·.kind) ∈ inside ↔ ∀ t ∈ ts, t.kind ≠ .closeSquare := by
  show Kind.closeSquare ∉ ts.map (·.kind) ↔ _
  simp

theorem mem_invocation_iff :
    ts.map (·.kind) ∈ invocation ↔ ∃ node, InvocationStatement ts node := by
  constructor
  · intro h
    obtain ⟨mark, ts, rfl, hmark, h⟩ := mem_one_mul_iff.mp h
    obtain ⟨name, ts, rfl, hname, h⟩ := mem_one_mul_iff.mp h
    obtain ⟨opener, ts, rfl, hopener, h⟩ := mem_one_mul_iff.mp h
    obtain ⟨args, ts, rfl, hargs, h⟩ := mem_mul_iff.mp h
    obtain ⟨last, ends, rfl, hlast, hends⟩ := mem_one_mul_iff.mp h
    exact ⟨_, .intro hmark hname hopener (mem_inside_iff.mp hargs) hlast
      (mem_semicolons_iff.mp hends)⟩
  · rintro ⟨_, hmark, hname, hopener, hargs, hlast, hends⟩
    exact mem_one_mul_iff.mpr ⟨_, _, rfl, hmark, mem_one_mul_iff.mpr ⟨_, _, rfl, hname,
      mem_one_mul_iff.mpr ⟨_, _, rfl, hopener, mem_mul_iff.mpr ⟨_, _, rfl,
        mem_inside_iff.mpr hargs, mem_one_mul_iff.mpr ⟨_, _, rfl, hlast,
          mem_semicolons_iff.mpr hends⟩⟩⟩⟩⟩

theorem mem_body_iff :
    ts.map (·.kind) ∈ body ↔
      (∃ nodes, Statements InnerStatement ts nodes) ∧
        Pattern.Balanced .openBrace .closeBrace (ts.map (·.kind)) := by
  have hspell : ∀ us : List Token,
      us.map (·.kind) ∈ comment + invocation ↔ ∃ node, InnerStatement us node := by
    intro us
    rw [Language.mem_add, mem_comment_iff, mem_invocation_iff, Or.comm]
    exact exists_or.symm
  rw [body, Language.mem_inf, mem_statements_iff hspell]
  rfl

theorem mem_function_iff :
    ts.map (·.kind) ∈ function ↔
      ∃ node, FunctionStatement (Statements InnerStatement) ts node := by
  constructor
  · intro h
    obtain ⟨name, ts, rfl, hname, h⟩ := mem_one_mul_iff.mp h
    obtain ⟨colon, ts, rfl, hcolon, h⟩ := mem_one_mul_iff.mp h
    obtain ⟨paren, ts, rfl, hparen, h⟩ := mem_one_mul_iff.mp h
    obtain ⟨inside, ts, rfl, hinside, h⟩ := mem_mul_iff.mp h
    obtain ⟨close, ts, rfl, hclose, h⟩ := mem_one_mul_iff.mp h
    obtain ⟨colon', ts, rfl, hcolon', h⟩ := mem_one_mul_iff.mp h
    obtain ⟨types, ts, rfl, htypes, h⟩ := mem_mul_iff.mp h
    obtain ⟨opener, ts, rfl, hopener, h⟩ := mem_one_mul_iff.mp h
    obtain ⟨inner, ts, rfl, hinner, h⟩ := mem_mul_iff.mp h
    obtain ⟨last, ends, rfl, hlast, hends⟩ := mem_one_mul_iff.mp h
    obtain ⟨ps, hps⟩ := mem_params_iff.mp hinside
    obtain ⟨value, hvalue⟩ := mem_returnType_iff.mp htypes
    obtain ⟨⟨nodes, hnodes⟩, hbalanced⟩ := mem_body_iff.mp hinner
    exact ⟨_, .intro hname hcolon hparen hps hclose hcolon' hvalue hopener hbalanced hnodes hlast
      (mem_semicolons_iff.mp hends)⟩
  · rintro ⟨_, hname, hcolon, hparen, hps, hclose, hcolon', hvalue, hopener, hbalanced, hnodes,
      hlast, hends⟩
    exact mem_one_mul_iff.mpr ⟨_, _, rfl, hname, mem_one_mul_iff.mpr ⟨_, _, rfl, hcolon,
      mem_one_mul_iff.mpr ⟨_, _, rfl, hparen, mem_mul_iff.mpr ⟨_, _, rfl,
        mem_params_iff.mpr ⟨_, hps⟩, mem_one_mul_iff.mpr ⟨_, _, rfl, hclose,
          mem_one_mul_iff.mpr ⟨_, _, rfl, hcolon', mem_mul_iff.mpr ⟨_, _, rfl,
            mem_returnType_iff.mpr ⟨_, hvalue⟩, mem_one_mul_iff.mpr ⟨_, _, rfl, hopener,
              mem_mul_iff.mpr ⟨_, _, rfl, mem_body_iff.mpr ⟨⟨_, hnodes⟩, hbalanced⟩,
                mem_one_mul_iff.mpr ⟨_, _, rfl, hlast, mem_semicolons_iff.mpr hends⟩⟩⟩⟩⟩⟩⟩⟩⟩⟩

/-- The kinds of a program are in the language exactly if some nodes are derived from it. -/
theorem mem_program_iff : ts.map (·.kind) ∈ program ↔ ∃ nodes, Derives ts nodes := by
  refine mem_statements_iff fun us => ?_
  rw [Language.mem_add, Language.mem_add, mem_importing_iff, mem_comment_iff, mem_function_iff,
    or_assoc]
  simp only [OuterStatement, exists_or]

end Spelling

end Grammar

/-! ## Strict parsing -/

/-- A strict builder that may enter a body accepts exactly the language of programs, and builds
the one list of nodes that the grammar assigns. -/
theorem strict_build_accepts_program (maxDepth : Nat) (hdepth : 1 ≤ maxDepth) (ts : List Token) :
    ((∃ program, (Builder.build { options := { lenient := false, maxDepth } } ts).result =
        .ok program) ↔ ts.map (·.kind) ∈ Grammar.Spelling.program) ∧
    (∀ program, (Builder.build { options := { lenient := false, maxDepth } } ts).result =
        .ok program ↔ Grammar.Derives ts program.children) ∧
    (ts.map (·.kind) ∈ Grammar.Spelling.program → ∃! nodes, Grammar.Derives ts nodes) := by
  have hbuild : ∀ program : Program,
      (Builder.build { options := { lenient := false, maxDepth } } ts).result = .ok program ↔
        Grammar.Derives ts program.children := fun program =>
    Builder.result_build_eq_ok_iff_derives rfl rfl (by simpa using hdepth)
  refine ⟨?_, hbuild, ?_⟩
  · rw [Grammar.Spelling.mem_program_iff]
    constructor
    · rintro ⟨program, h⟩
      exact ⟨program.children, (hbuild program).mp h⟩
    · rintro ⟨nodes, h⟩
      exact ⟨⟨nodes⟩, (hbuild ⟨nodes⟩).mpr h⟩
  · intro hmem
    obtain ⟨nodes, h⟩ := Grammar.Spelling.mem_program_iff.mp hmem
    refine ⟨nodes, h, fun others hothers => ?_⟩
    -- Both are what the builder returns.
    have hfirst := (hbuild ⟨nodes⟩).mpr h
    have hsecond := (hbuild ⟨others⟩).mpr hothers
    rw [hfirst] at hsecond
    cases hsecond
    rfl

instance (opener closer : Kind) (kinds : List Kind) :
    Decidable (Pattern.Balanced opener closer kinds) :=
  decidable_of_iff
    ((∀ front ∈ kinds.inits, front.count closer ≤ front.count opener) ∧
      kinds.count opener = kinds.count closer)
    ⟨fun h => ⟨fun front hfront => h.1 front ((List.mem_inits _ _).mpr hfront), h.2⟩,
      fun h => ⟨fun front hfront => h.front front ((List.mem_inits _ _).mp hfront), h.whole⟩⟩

/-- `f:(x string):{ $ls[{}] }`: braces among the arguments. -/
theorem strict_build_braces_in_arguments :
    (Builder.build { options := { lenient := false, maxDepth := 1 } }
      [⟨.identifier, "f", {}⟩, ⟨.colon, ":", {}⟩, ⟨.openParen, "(", {}⟩, ⟨.identifier, "x", {}⟩,
        ⟨.stringType, "string", {}⟩, ⟨.closeParen, ")", {}⟩, ⟨.colon, ":", {}⟩,
        ⟨.openBrace, "\x7b", {}⟩, ⟨.execMarker, "$", {}⟩, ⟨.identifier, "ls", {}⟩,
        ⟨.openSquare, "[", {}⟩, ⟨.openBrace, "\x7b", {}⟩, ⟨.closeBrace, "\x7d", {}⟩,
        ⟨.closeSquare, "]", {}⟩, ⟨.closeBrace, "\x7d", {}⟩]).result =
      .ok ⟨[.function ⟨"f", [⟨"x", .string⟩], none, {}⟩
        [.invocation ⟨"ls", ["\x7b", "\x7d"], {}⟩]]⟩ := by
  refine ((strict_build_accepts_program 1 (by decide) _).2.1 _).mpr ?_
  have hparams : Grammar.Params [⟨.identifier, "x", {}⟩, ⟨.stringType, "string", {}⟩]
      [⟨"x", .string⟩] :=
    @Grammar.Params.param _ _ [] [] _ _ rfl (by simp) .string .nil
  have hcall := Grammar.Statements.statement (Or.inl (@Grammar.InvocationStatement.intro
    ⟨.execMarker, "$", {}⟩ ⟨.identifier, "ls", {}⟩ ⟨.openSquare, "[", {}⟩ ⟨.closeSquare, "]", {}⟩
    [⟨.openBrace, "\x7b", {}⟩, ⟨.closeBrace, "\x7d", {}⟩] [] rfl rfl rfl (by decide) rfl
    (by simp [Grammar.Semicolons]))) (@Grammar.Statements.nil Grammar.InnerStatement)
  have hfunction := @Grammar.FunctionStatement.intro _ ⟨.identifier, "f", {}⟩ ⟨.colon, ":", {}⟩
    ⟨.openParen, "(", {}⟩ ⟨.closeParen, ")", {}⟩ ⟨.colon, ":", {}⟩ ⟨.openBrace, "\x7b", {}⟩
    ⟨.closeBrace, "\x7d", {}⟩ _ _ _ [] _ _ _ rfl rfl rfl hparams rfl rfl .none rfl (by decide)
    hcall rfl (by simp [Grammar.Semicolons])
  have houter : Grammar.OuterStatement (Grammar.Statements Grammar.InnerStatement) _ _ :=
    Or.inr (Or.inr hfunction)
  exact Grammar.Statements.statement houter .nil

end CheckedScript
