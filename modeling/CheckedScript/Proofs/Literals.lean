import CheckedScript.Proofs.Compilation
import CheckedScript.Proofs.Grouping

/-!
What stands between two quotes is opaque. Another text in a literal changes the text of one token,
the literal or the comment around it, and no kind. The builder looks at kinds, so its tree changes
in one argument or one comment at most, and whether there is a script depends on neither.

Main results:
* `Token.exists_layOut_reworded`: the tokens with another text between the quotes.
* `Compiler.literal_opaque`: tokens, trees and scripts.

Scripts are not judged here: a judgement may depend on the text of an argument.
-/

namespace CheckedScript

open Grammar

/-! ## Lists that differ in one place -/

/-- The lists have the same elements but for one, and the two in that place are related by `R`. -/
inductive OneDiffers {α : Type} (R : α → α → Prop) : List α → List α → Prop
  | here {x y : α} {rest : List α} (related : R x y) : OneDiffers R (x :: rest) (y :: rest)
  | there {x : α} {xs ys : List α} (rest : OneDiffers R xs ys) : OneDiffers R (x :: xs) (x :: ys)

def AtMostOneDiffers {α : Type} (R : α → α → Prop) (xs ys : List α) : Prop :=
  xs = ys ∨ OneDiffers R xs ys

namespace OneDiffers

variable {α : Type} {R : α → α → Prop}

theorem behind (front : List α) {xs ys : List α} (h : OneDiffers R xs ys) :
    OneDiffers R (front ++ xs) (front ++ ys) := by
  induction front with
  | nil => exact h
  | cons x front ih => exact .there ih

theorem exists_eq {xs ys : List α} (h : OneDiffers R xs ys) :
    ∃ front x y back, xs = front ++ x :: back ∧ ys = front ++ y :: back ∧ R x y := by
  induction h with
  | @here x y rest hrelated => exact ⟨[], x, y, rest, rfl, rfl, hrelated⟩
  | @there z xs ys _ ih =>
    obtain ⟨front, x, y, back, rfl, rfl, hrelated⟩ := ih
    exact ⟨z :: front, x, y, back, rfl, rfl, hrelated⟩

theorem append_inv {front back ys : List α} (h : OneDiffers R (front ++ back) ys) :
    (∃ front', ys = front' ++ back ∧ OneDiffers R front front') ∨
      ∃ back', ys = front ++ back' ∧ OneDiffers R back back' := by
  induction front generalizing ys with
  | nil => exact .inr ⟨ys, rfl, h⟩
  | cons x front ih =>
    rw [List.cons_append] at h
    cases h with
    | @here _ y _ hrelated => exact .inl ⟨y :: front, rfl, .here hrelated⟩
    | there hrest =>
      obtain ⟨front', rfl, hfront⟩ | ⟨back', rfl, hback⟩ := ih hrest
      · exact .inl ⟨x :: front', rfl, .there hfront⟩
      · exact .inr ⟨back', rfl, hback⟩

/-- Elements that are related to none stay in front. -/
theorem append_inv_of_not {front back ys : List α} (h : OneDiffers R (front ++ back) ys)
    (hfront : ∀ x ∈ front, ∀ y, ¬R x y) :
    ∃ back', ys = front ++ back' ∧ OneDiffers R back back' := by
  obtain ⟨front', -, hdiffers⟩ | hback := h.append_inv
  · obtain ⟨before, x, y, after, rfl, -, hrelated⟩ := hdiffers.exists_eq
    exact absurd hrelated (hfront x (by simp) y)
  · exact hback

/-- What is the same for related elements is collected alike. -/
theorem flatMap_eq {β : Type} {f : α → List β} (hf : ∀ x y, R x y → f x = f y) {xs ys : List α}
    (h : OneDiffers R xs ys) : xs.flatMap f = ys.flatMap f := by
  obtain ⟨front, x, y, back, rfl, rfl, hrelated⟩ := h.exists_eq
  rw [List.flatMap_append, List.flatMap_append, List.flatMap_cons, List.flatMap_cons,
    hf x y hrelated]

end OneDiffers

theorem AtMostOneDiffers.cons {α : Type} {R : α → α → Prop} {xs ys : List α} (x : α)
    (h : AtMostOneDiffers R xs ys) : AtMostOneDiffers R (x :: xs) (x :: ys) := by
  obtain rfl | h := h
  · exact .inl rfl
  · exact .inr (.there h)

theorem AtMostOneDiffers.flatMap_eq {α β : Type} {R : α → α → Prop} {f : α → List β}
    (hf : ∀ x y, R x y → f x = f y) {xs ys : List α} (h : AtMostOneDiffers R xs ys) :
    xs.flatMap f = ys.flatMap f := by
  obtain rfl | h := h
  · rfl
  · exact h.flatMap_eq hf

/-! ## Tokens and nodes with another text -/

/-- The literal `a` becomes the literal `b`, or a comment has `b` in place of one `a`. -/
inductive Token.Reworded (a b : String) : Token → Token → Prop
  | literal (position : Position) :
      Reworded a b ⟨.stringLiteral, a, position⟩ ⟨.stringLiteral, b, position⟩
  | comment (before after : String) (position : Position) :
      Reworded a b ⟨.comment, before ++ a ++ after, position⟩
        ⟨.comment, before ++ b ++ after, position⟩

/-- One argument or one comment of the tree has `b` in place of `a`. -/
inductive Node.Reworded (a b : String) : Node → Node → Prop
  | comment (before after : String) :
      Reworded a b (.comment (before ++ a ++ after)) (.comment (before ++ b ++ after))
  | argument (name : String) (before after : List String) (position : Position) :
      Reworded a b (.invocation ⟨name, before ++ a :: after, position⟩)
        (.invocation ⟨name, before ++ b :: after, position⟩)
  | function (signature : Signature) (before after : List Node) {node node' : Node}
      (inside : Reworded a b node node') :
      Reworded a b (.function signature (before ++ node :: after))
        (.function signature (before ++ node' :: after))

variable {a b : String}

namespace Token.Reworded

theorem kind_eq {t u : Token} (h : Reworded a b t u) : t.kind = u.kind := by
  cases h <;> rfl

theorem kind_mem {t u : Token} (h : Reworded a b t u) :
    t.kind ∈ [Kind.stringLiteral, .comment] := by
  cases h with
  | literal => exact List.mem_cons_self ..
  | comment => exact List.mem_cons_of_mem _ (List.mem_singleton_self _)

theorem map_kind_eq {ts us : List Token} (h : OneDiffers (Reworded a b) ts us) :
    ts.map (·.kind) = us.map (·.kind) := by
  rw [List.map_eq_flatMap, List.map_eq_flatMap]
  exact h.flatMap_eq fun t u htu => by rw [htu.kind_eq]

theorem forall_kind_ne {ts us : List Token} (h : OneDiffers (Reworded a b) ts us) {kind : Kind}
    (hts : ∀ t ∈ ts, t.kind ≠ kind) : ∀ u ∈ us, u.kind ≠ kind := by
  intro u hu hkind
  have hmem : kind ∈ ts.map (·.kind) := by
    rw [map_kind_eq h]
    exact List.mem_map.mpr ⟨u, hu, hkind⟩
  obtain ⟨t, ht, heq⟩ := List.mem_map.mp hmem
  exact hts t ht heq

/-- A literal among the tokens is one argument, a comment none. -/
theorem arguments {ts us : List Token} (h : OneDiffers (Reworded a b) ts us) :
    Grammar.arguments ts = Grammar.arguments us ∨ ∃ before after,
      Grammar.arguments ts = before ++ a :: after ∧
        Grammar.arguments us = before ++ b :: after := by
  obtain ⟨front, t, u, back, rfl, rfl, htu⟩ := h.exists_eq
  cases htu with
  | literal =>
    refine .inr ⟨Grammar.arguments front, Grammar.arguments back, ?_, ?_⟩
    · simp [Grammar.arguments]
    · simp [Grammar.arguments]
  | comment => exact .inl (by simp [Grammar.arguments])

end Token.Reworded

namespace Node.Reworded

theorem imports_eq {node node' : Node} (h : Reworded a b node node') :
    node.imports = node'.imports := by
  induction h with
  | comment | argument => rfl
  | function signature before after _ ih =>
    rw [imports_function, imports_function]
    simp only [List.flatMap_append, List.flatMap_cons, ih]

theorem commands_name_eq {node node' : Node} (h : Reworded a b node node') :
    node.commands.map (·.name) = node'.commands.map (·.name) := by
  induction h with
  | comment | argument => rfl
  | function signature before after _ ih =>
    rw [commands_function, commands_function]
    simp only [List.flatMap_append, List.flatMap_cons, List.map_append, ih]

end Node.Reworded

/-- Neither arguments nor comments decide whether a program has a script. -/
theorem Program.Compilable.of_reworded {options : Script.Options} {program other : Program}
    (h : program.Compilable options)
    (hother : AtMostOneDiffers (Node.Reworded a b) program.children other.children) :
    other.Compilable options := by
  refine h.of_eq ?_ ?_ ?_
  · rw [functionNames, functionNames, List.filterMap_eq_flatMap_toList,
      List.filterMap_eq_flatMap_toList]
    refine (hother.flatMap_eq fun node node' hnode => ?_).symm
    cases hnode <;> rfl
  · rw [imports, imports, Node.importsAmong_eq, Node.importsAmong_eq]
    exact (hother.flatMap_eq fun _ _ hnode => hnode.imports_eq).symm
  · rw [commands_eq, commands_eq, List.map_flatMap, List.map_flatMap]
    exact (hother.flatMap_eq fun _ _ hnode => hnode.commands_name_eq).symm

/-! ## The builder -/

namespace Grammar

/-- Statements of the form stay such when one token is reworded, with the node that follows. -/
def Rewordable (a b : String) (Statement : List Token → Node → Prop) : Prop :=
  ∀ span node span', Statement span node → OneDiffers (Token.Reworded a b) span span' →
    ∃ node', Statement span' node' ∧ (node = node' ∨ Node.Reworded a b node node')

theorem Rewordable.or {Statement Other : List Token → Node → Prop} (h : Rewordable a b Statement)
    (hother : Rewordable a b Other) :
    Rewordable a b fun span node => Statement span node ∨ Other span node := by
  intro span node span' hs hspan
  obtain hs | hs := hs
  · obtain ⟨node', hs', hnode⟩ := h span node span' hs hspan
    exact ⟨node', .inl hs', hnode⟩
  · obtain ⟨node', hs', hnode⟩ := hother span node span' hs hspan
    exact ⟨node', .inr hs', hnode⟩

theorem not_reworded_of_kind {t : Token} (h : t.kind ∉ [Token.Kind.stringLiteral, .comment]) :
    ∀ u, ¬Token.Reworded a b t u :=
  fun _ htu => h htu.kind_mem

theorem not_oneDiffers_of_semicolons {ends ends' : List Token} (h : Semicolons ends) :
    ¬OneDiffers (Token.Reworded a b) ends ends' := by
  intro hends
  obtain ⟨front, t, u, back, rfl, -, htu⟩ := hends.exists_eq
  have hmem := htu.kind_mem
  rw [h t (by simp)] at hmem
  revert hmem
  decide

theorem rewordable_import : Rewordable a b ImportStatement := by
  intro span node span' hs hspan
  cases hs with
  | @plain keyword name ends hkeyword hname _ hends =>
    obtain ⟨ends', -, hends'⟩ := @OneDiffers.append_inv_of_not _ _ [keyword, name] ends _ hspan
      (by simp [hkeyword, hname, not_reworded_of_kind])
    exact absurd hends' (not_oneDiffers_of_semicolons hends)
  | @aliased keyword name mark other ends hkeyword hname hmark hother _ hends =>
    obtain ⟨ends', -, hends'⟩ := @OneDiffers.append_inv_of_not _ _ [keyword, name, mark, other] ends
      _ hspan (by simp [hkeyword, hname, hmark, hother, not_reworded_of_kind])
    exact absurd hends' (not_oneDiffers_of_semicolons hends)

theorem rewordable_comment : Rewordable a b CommentStatement := by
  intro span node span' hs hspan
  cases hs with
  | @intro t ends hkind hends =>
    cases hspan with
    | there hrest => exact absurd hrest (not_oneDiffers_of_semicolons hends)
    | here htu =>
      cases htu with
      | literal => cases hkind
      | comment before after =>
        exact ⟨_, .intro rfl hends, .inr (.comment before after)⟩

theorem rewordable_invocation : Rewordable a b InvocationStatement := by
  intro span node span' hs hspan
  cases hs with
  | @intro mark name opener last inside ends hmark hname hopener hinside hlast hends =>
    obtain ⟨rest, rfl, hrest⟩ := @OneDiffers.append_inv_of_not _ _ [mark, name, opener]
      (inside ++ last :: ends) _ hspan (by simp [hmark, hname, hopener, not_reworded_of_kind])
    obtain ⟨inside', rfl, hinside'⟩ | ⟨back, rfl, hback⟩ := hrest.append_inv
    · have hs' := InvocationStatement.intro hmark hname hopener
        (Token.Reworded.forall_kind_ne hinside' hinside) hlast hends
      refine ⟨_, hs', ?_⟩
      obtain hsame | ⟨before, after, hbefore, hafter⟩ := Token.Reworded.arguments hinside'
      · exact .inl (by rw [hsame])
      · rw [hbefore, hafter]
        exact .inr (.argument name.text before after name.position)
    · obtain ⟨ends', -, hends'⟩ := @OneDiffers.append_inv_of_not _ _ [last] ends _ hback
        (by simp [hlast, not_reworded_of_kind])
      exact absurd hends' (not_oneDiffers_of_semicolons hends)

theorem rewordable_function {Body : List Token → List Node → Prop}
    (hBody : ∀ body nodes body', Body body nodes → OneDiffers (Token.Reworded a b) body body' →
      ∃ nodes', Body body' nodes' ∧ AtMostOneDiffers (Node.Reworded a b) nodes nodes') :
    Rewordable a b (FunctionStatement Body) := by
  intro span node span' hs hspan
  cases hs with
  | @intro name colon paren close colon' opener last inside types body ends params value nodes hname
      hcolon hparen hparams hclose hcolon' htypes hopener hbalanced hbody hlast hends =>
    have hall : OneDiffers (Token.Reworded a b) ((name :: colon :: paren :: (inside ++ close ::
        colon' :: (types ++ [opener]))) ++ (body ++ last :: ends)) span' := by
      simpa using hspan
    have hheader : ∀ t ∈ name :: colon :: paren :: (inside ++ close :: colon' ::
        (types ++ [opener])), ∀ u, ¬Token.Reworded a b t u := by
      intro t ht u htu
      have hkinds : ∀ kind ∈ [Token.Kind.stringLiteral, .comment], kind ∉ [Token.Kind.comma,
          .semicolon, .identifier, .colon, .stringType, .stringArrayType, .openParen, .closeParen,
          .openBrace] := by
        decide
      exact hkinds t.kind htu.kind_mem (Builder.header_kind_mem hname hcolon hparen hparams hclose
        hcolon' htypes hopener t ht)
    obtain ⟨rest, rfl, hrest⟩ := hall.append_inv_of_not hheader
    obtain ⟨body', rfl, hbody'⟩ | ⟨back, rfl, hback⟩ := hrest.append_inv
    · obtain ⟨nodes', hnodes', hdiffers⟩ := hBody body nodes body' hbody hbody'
      have hbalanced' : Pattern.Balanced .openBrace .closeBrace (body'.map (·.kind)) :=
        Token.Reworded.map_kind_eq hbody' ▸ hbalanced
      have hs' := FunctionStatement.intro hname hcolon hparen hparams hclose hcolon' htypes hopener
        hbalanced' hnodes' hlast hends
      refine ⟨_, by simpa using hs', ?_⟩
      obtain rfl | hdiffers := hdiffers
      · exact .inl rfl
      · obtain ⟨before, node, node', after, rfl, rfl, hnode⟩ := hdiffers.exists_eq
        exact .inr (.function _ before after hnode)
    · obtain ⟨ends', -, hends'⟩ := @OneDiffers.append_inv_of_not _ _ [last] ends _ hback
        (by simp [hlast, not_reworded_of_kind])
      exact absurd hends' (not_oneDiffers_of_semicolons hends)

end Grammar

namespace Builder

theorem stepBy_eq_none_of_kinds {ts us : List Token} (hkinds : ts.map (·.kind) = us.map (·.kind))
    {offset : Nat} {rules : List Rule} (h : (stepBy offset ts rules).result = .ok none) :
    (stepBy offset us rules).result = .ok none := by
  refine stepBy_eq_none_iff.mpr fun rule hrule n => ?_
  rw [← Pattern.matchLength_congr hkinds]
  exact stepBy_eq_none_iff.mp h rule hrule n

/-- A lenient builder leaves out a token where there is no step. -/
theorem result_nodesBy_skipped {scope : Scope} {rules : List Rule} {t : Token} {ts : List Token}
    (ht : t.kind ≠ .semicolon) (hstep : (stepBy 0 (t :: ts) rules).result = .ok none) :
    (nodesBy scope true rules 0 (t :: ts)).result = (nodesBy scope true rules 0 ts).result := by
  rw [result_nodesBy_step _ _ _ _ ht, hstep]
  exact result_nodesBy_offset ..

/-- Reworded tokens are built to the same nodes, but for one that is reworded like them. -/
theorem exists_nodesBy_reworded {rules : List Rule} {Statement : List Token → Node → Prop}
    (hsteps : Steps rules Statement) (hterm : Terminated Statement)
    (hform : Rewordable a b Statement) {scope : Scope} {lenient : Bool} {ts us : List Token}
    {nodes : List Node} (h : (nodesBy scope lenient rules 0 ts).result = .ok nodes)
    (hus : OneDiffers (Token.Reworded a b) ts us) :
    ∃ nodes', (nodesBy scope lenient rules 0 us).result = .ok nodes' ∧
      AtMostOneDiffers (Node.Reworded a b) nodes nodes' := by
  -- Where the reworded token stands in a statement, the rest is built as it was before.
  let Motive (ts : List Token) (nodes : List Node) : Prop :=
    (nodesBy scope lenient rules 0 ts).result = .ok nodes ∧
      ∀ us, OneDiffers (Token.Reworded a b) ts us →
        ∃ nodes', (nodesBy scope lenient rules 0 us).result = .ok nodes' ∧
          AtMostOneDiffers (Node.Reworded a b) nodes nodes'
  have hmotive : Motive ts nodes := by
    refine nodesBy_induct hsteps hterm scope lenient ⟨by simp, nofun⟩ ?_ ?_ ?_ h
    · intro t ts nodes ht ⟨hts, ih⟩
      have hskip : ∀ ds, (nodesBy scope lenient rules 0 (t :: ds)).result =
          (nodesBy scope lenient rules 0 ds).result := by
        intro ds
        rw [result_nodesBy_semicolon _ _ _ _ ht]
        exact result_nodesBy_offset ..
      refine ⟨by rw [hskip, hts], fun us hus => ?_⟩
      obtain ⟨us', rfl, hus'⟩ := @OneDiffers.append_inv_of_not _ _ [t] ts us hus
        (by simp [ht, not_reworded_of_kind])
      obtain ⟨nodes', hnodes', hdiffers⟩ := ih us' hus'
      exact ⟨nodes', by rw [List.singleton_append, hskip, hnodes'], hdiffers⟩
    · intro span node ts nodes hs ⟨hts, ih⟩
      have hfirst : ∀ {span node} ds, Statement span node →
          (nodesBy scope lenient rules 0 (span ++ ds)).result =
            (nodesBy scope lenient rules 0 ds).result.map (node :: ·) :=
        fun ds hs => result_nodesBy_statement hsteps hterm scope lenient 0 0 hs ds
      refine ⟨by rw [hfirst ts hs, hts]; rfl, fun us hus => ?_⟩
      obtain ⟨span', rfl, hspan'⟩ | ⟨ts', rfl, hts'⟩ := hus.append_inv
      · obtain ⟨node', hs', hnode⟩ := hform span node span' hs hspan'
        refine ⟨node' :: nodes, by rw [hfirst ts hs', hts]; rfl, ?_⟩
        obtain rfl | hnode := hnode
        · exact .inl rfl
        · exact .inr (.here hnode)
      · obtain ⟨nodes', hnodes', hdiffers⟩ := ih ts' hts'
        exact ⟨node :: nodes', by rw [hfirst ts' hs, hnodes']; rfl, hdiffers.cons node⟩
    · rintro t ts nodes rfl ht hstep ⟨hts, ih⟩
      refine ⟨by rw [result_nodesBy_skipped ht hstep, hts], fun us hus => ?_⟩
      have hstep' := stepBy_eq_none_of_kinds (Token.Reworded.map_kind_eq hus) hstep
      cases hus with
      | @here _ u _ htu =>
        rw [result_nodesBy_skipped (htu.kind_eq ▸ ht) hstep']
        exact ⟨nodes, hts, .inl rfl⟩
      | there hrest =>
        rw [result_nodesBy_skipped ht hstep']
        exact ih _ hrest
  exact hmotive.2 us hus

theorem exists_body_reworded {builder : Builder} {body body' : List Token} {nodes : List Node}
    (h : builder.Body body nodes) (hbody' : OneDiffers (Token.Reworded a b) body body') :
    ∃ nodes', builder.Body body' nodes' ∧ AtMostOneDiffers (Node.Reworded a b) nodes nodes' := by
  obtain ⟨hdepth, hnodes⟩ := h
  obtain ⟨nodes', hnodes', hdiffers⟩ := exists_nodesBy_reworded body_steps inner_terminated
    (rewordable_invocation.or rewordable_comment) hnodes hbody'
  exact ⟨nodes', ⟨hdepth, hnodes'⟩, hdiffers⟩

theorem exists_build_reworded {builder : Builder} (hscope : builder.scope = .topLevel)
    {ts us : List Token} {program : Program} (h : (builder.build ts).result = .ok program)
    (hus : OneDiffers (Token.Reworded a b) ts us) :
    ∃ other, (builder.build us).result = .ok other ∧
      AtMostOneDiffers (Node.Reworded a b) program.children other.children := by
  rw [build, result_buildBy] at h
  obtain ⟨nodes, hnodes, rfl⟩ := map_eq_ok_iff.mp h
  obtain ⟨nodes', hnodes', hdiffers⟩ := exists_nodesBy_reworded (rules_steps hscope)
    (outer_terminated builder) (rewordable_import.or (rewordable_comment.or
      (rewordable_function fun _ _ _ => exists_body_reworded))) hnodes hus
  refine ⟨⟨nodes'⟩, ?_, hdiffers⟩
  rw [build, result_buildBy, hnodes']
  rfl

end Builder

/-! ## Sources -/

namespace Token

theorem joinStrings_quoted {content : List Char} (h : '"' ∉ content) (back : List Token) :
    joinStrings (bare ['"'] :: ((Fragment.split content).map bare ++ bare ['"'] :: back)) =
      (joinStrings back).map ((⟨.stringLiteral, String.ofList content, {}⟩ : Token) :: ·) := by
  have hquote : (bare ['"']).kind = .stringLiteralMarker := kind_bare_quote.mpr rfl
  rw [joinStrings_literal hquote (kind_ne_quote h) hquote, merge_bare _ _ rfl]

/-- A comment around a literal has the text of the literal in it. -/
theorem reworded_merge (parts inside : List Token) (mark : Token) (a b : String) :
    Reworded a b (merge .comment (parts ++ ⟨.stringLiteral, a, {}⟩ :: inside) mark)
      (merge .comment (parts ++ ⟨.stringLiteral, b, {}⟩ :: inside) mark) := by
  have hmerge : ∀ text : String,
      merge .comment (parts ++ ⟨.stringLiteral, text, {}⟩ :: inside) mark =
        ⟨.comment, String.join (parts.map (·.text)) ++ text ++ String.join (inside.map (·.text)),
          (parts.head?.getD ⟨.stringLiteral, text, {}⟩).position⟩ := by
    intro text
    have htext : String.join ((parts ++ ⟨.stringLiteral, text, {}⟩ :: inside).map (·.text)) =
        String.join (parts.map (·.text)) ++ text ++ String.join (inside.map (·.text)) := by
      rw [← String.toList_inj]
      simp [String.toList_join]
    have hhead : ((parts ++ ⟨.stringLiteral, text, {}⟩ :: inside).head?.getD mark).position =
        (parts.head?.getD ⟨.stringLiteral, text, {}⟩).position := by
      cases parts <;> rfl
    rw [merge, htext, hhead]
  have hposition : (parts.head?.getD ⟨.stringLiteral, a, {}⟩).position =
      (parts.head?.getD ⟨.stringLiteral, b, {}⟩).position := by
    cases parts <;> rfl
  rw [hmerge, hmerge, hposition]
  exact .comment _ _ _

/-- Another text between quotes is another text of the literal, or of the comment around it. -/
theorem exists_layOut_reworded {front back ts : List Token} {a b : List Char}
    (hfront : (Region.along {} front).quoted = false) (ha : '"' ∉ a) (hb : '"' ∉ b)
    (h : layOut (front ++ bare ['"'] :: ((Fragment.split a).map bare ++ bare ['"'] :: back)) =
      .ok ts) :
    ∃ us, layOut (front ++ bare ['"'] :: ((Fragment.split b).map bare ++ bare ['"'] :: back)) =
        .ok us ∧ OneDiffers (Reworded (String.ofList a) (String.ofList b)) ts us := by
  obtain ⟨joined, hjoined⟩ : ∃ joined, joinStrings back = .ok joined := by
    obtain ⟨all, hall⟩ := exists_joinStrings_of_layOut hfront h
    rw [joinStrings_quoted ha] at hall
    obtain ⟨joined, hjoined, -⟩ := map_eq_ok_iff.mp hall
    exact ⟨joined, hjoined⟩
  have hliteral : ∀ content : List Char, '"' ∉ content →
      joinStrings (bare ['"'] :: ((Fragment.split content).map bare ++ bare ['"'] :: back)) =
        .ok (⟨.stringLiteral, String.ofList content, {}⟩ :: joined) := by
    intro content hcontent
    rw [joinStrings_quoted hcontent, hjoined]
    rfl
  obtain hregion | hregion := along_of_not_quoted hfront
  · obtain ⟨out, hout⟩ := group_append hregion
    have hgroup : ∀ content : List Char, '"' ∉ content →
        group (front ++ bare ['"'] :: ((Fragment.split content).map bare ++ bare ['"'] :: back)) =
          .ok (out ++ ⟨.stringLiteral, String.ofList content, {}⟩ :: joinComments joined) := by
      intro content hcontent
      rw [hout, group, hliteral content hcontent]
      rfl
    rw [layOut_around (hgroup a ha) (.inr rfl)] at h
    refine ⟨_, layOut_around (hgroup b hb) (.inr rfl), ?_⟩
    rw [← Except.ok.inj h]
    exact OneDiffers.behind _ (.here (.literal {}))
  · -- The literal ends up in an open comment, with what follows it in its line.
    obtain ⟨out, mark, parts, hout⟩ := exists_group_open hregion
    let line := joined.takeWhile fun t => t.kind ≠ .newLine
    let rest := joined.dropWhile fun t => t.kind ≠ .newLine
    have hsplit : joined = line ++ rest := List.takeWhile_append_dropWhile.symm
    have hline : ∀ t ∈ line, t.kind ≠ .newLine := fun t ht => by
      simpa using List.all_eq_true.mp List.all_takeWhile t ht
    have hrest : ∀ t ∈ rest.head?, t.kind = .newLine := by
      intro t ht
      have hnot := List.head?_dropWhile_not (fun t : Token => decide (t.kind ≠ .newLine)) joined
      rw [Option.mem_def.mp ht] at hnot
      simpa using hnot
    have hgroup : ∀ content : List Char, '"' ∉ content →
        group (front ++ bare ['"'] :: ((Fragment.split content).map bare ++ bare ['"'] :: back)) =
          .ok (out ++ merge .comment (parts ++ ⟨.stringLiteral, String.ofList content, {}⟩ :: line)
            mark :: joinComments rest) := by
      intro content hcontent
      refine hout _ _ rest ?_ (List.forall_mem_cons.mpr ⟨by simp, hline⟩) hrest
      rw [hliteral content hcontent, hsplit, List.cons_append]
    rw [layOut_around (hgroup a ha) (.inl rfl)] at h
    refine ⟨_, layOut_around (hgroup b hb) (.inl rfl), ?_⟩
    rw [← Except.ok.inj h]
    exact OneDiffers.behind _ (.here (reworded_merge parts line mark _ _))

end Token

namespace Compiler

open Token (bare)

/-- The source with the literal `content` between `front` and `back`. -/
def withLiteral (front content back : String) : String := front ++ "\"" ++ content ++ "\"" ++ back

theorem split_withLiteral (front content back : String) :
    (Fragment.split (withLiteral front content back).toList).map bare =
      (Fragment.split front.toList).map bare ++ bare ['"'] ::
        ((Fragment.split content.toList).map bare ++ bare ['"'] ::
          (Fragment.split back.toList).map bare) := by
  have htext : (withLiteral front content back).toList =
      front.toList ++ '"' :: (content.toList ++ '"' :: back.toList) := by
    simp [withLiteral]
  have hquote : isSeparator '"' = true := by decide
  have hhead : ∀ cs : List Char, ∀ c ∈ ('"' :: cs).head?, isSeparator c = true := by
    rintro cs c ⟨⟩
    exact hquote
  rw [htext, Fragment.split_append (.inr (hhead _)), Fragment.split,
    Fragment.attach_separator hquote, Fragment.split_append (.inr (hhead _)), Fragment.split,
    Fragment.attach_separator hquote]
  simp only [List.map_append, List.map_cons]

section

variable {front back : String} (hfront : Even (front.toList.count '"')) (ha : '"' ∉ a.toList)
  (hb : '"' ∉ b.toList)

include hfront ha hb

theorem exists_layOut_withLiteral {ts : List Token}
    (h : Token.layOut ((Fragment.split (withLiteral front a back).toList).map bare) = .ok ts) :
    ∃ us, Token.layOut ((Fragment.split (withLiteral front b back).toList).map bare) = .ok us ∧
      OneDiffers (Token.Reworded a b) ts us := by
  rw [split_withLiteral] at h ⊢
  have hlaid := Token.exists_layOut_reworded (Token.quoted_of_even hfront) ha hb h
  rwa [String.ofList_toList, String.ofList_toList] at hlaid

theorem exists_tokens_withLiteral {file : Option String} {ts : List Token}
    (h : (tokens file (withLiteral front a back)).result = .ok ts) :
    ∃ us, (tokens file (withLiteral front b back)).result = .ok us ∧
      OneDiffers (Token.Reworded a b) (ts.map (Token.moved Position.forget))
        (us.map (Token.moved Position.forget)) := by
  have hts := result_tokens_forget file (withLiteral front a back)
  rw [h] at hts
  obtain ⟨laid, hlaid, hdiffers⟩ := exists_layOut_withLiteral hfront ha hb hts.symm
  rw [← result_tokens_forget file] at hlaid
  obtain ⟨us, hus, rfl⟩ := mapBoth_eq_ok_iff.mp hlaid
  exact ⟨us, hus, hdiffers⟩

theorem exists_parse_withLiteral {config : Config} {file : Option String} {program : Program}
    (h : (parse config file (withLiteral front a back)).result = .ok program) :
    ∃ other, (parse config file (withLiteral front b back)).result = .ok other ∧
      AtMostOneDiffers (Node.Reworded a b) (program.moved Position.forget).children
        (other.moved Position.forget).children := by
  have hprogram := result_parse_forget config file (withLiteral front a back)
  rw [h] at hprogram
  obtain ⟨ts, hts, hbuild⟩ := bind_eq_ok_iff.mp hprogram.symm
  obtain ⟨us, hus, hdiffers⟩ := exists_layOut_withLiteral hfront ha hb hts
  obtain ⟨built, hbuilt, hchildren⟩ := Builder.exists_build_reworded rfl hbuild hdiffers
  have hforget : mapBoth (CompileError.moved Position.forget) (Program.moved Position.forget)
      (parse config file (withLiteral front b back)).result = .ok built := by
    rw [result_parse_forget]
    exact bind_eq_ok_iff.mpr ⟨us, hus, hbuilt⟩
  obtain ⟨other, hother, rfl⟩ := mapBoth_eq_ok_iff.mp hforget
  exact ⟨other, hother, hchildren⟩

/-- Without a judgement on scripts, a source with a script has one with another literal too. -/
theorem exists_script_withLiteral {valid : String → Bool} {config : Config}
    (hverify : config.settings.verifyOutput = false) {file : Option String} {script : String}
    (h : (compileBy valid config file (withLiteral front a back)).result = .ok script) :
    ∃ other, (compileBy valid config file (withLiteral front b back)).result = .ok other := by
  obtain ⟨ts, hts, hscript⟩ := compileBy_eq_ok_iff.mp h
  obtain ⟨program, hbuild, hcompilable, -⟩ := scriptOf_eq_ok_iff.mp hscript
  obtain ⟨us, hus, hdiffers⟩ := exists_layOut_withLiteral hfront ha hb hts
  obtain ⟨other, hother, hchildren⟩ := Builder.exists_build_reworded rfl hbuild hdiffers
  have hjudged : Script.judged valid config.scriptOptions (other.script config.scriptOptions) =
      .ok (other.script config.scriptOptions) := by
    refine if_neg ?_
    simp [Config.scriptOptions, hverify]
  exact ⟨_, compileBy_eq_ok_iff.mpr ⟨us, hus, scriptOf_eq_ok_iff.mpr
    ⟨other, hother, hcompilable.of_reworded hchildren, hjudged⟩⟩⟩

end

/-- The text of a literal is opaque: with another text in it, the same sources have tokens, trees
and scripts, the tokens differ in one text, and the trees in one argument or comment at most. -/
theorem literal_opaque (valid : String → Bool) (config : Config)
    (hverify : config.settings.verifyOutput = false) (file : Option String)
    (front a b back : String) (hfront : Even (front.toList.count '"')) (ha : '"' ∉ a.toList)
    (hb : '"' ∉ b.toList) :
    ((∃ ts, (tokens file (withLiteral front a back)).result = .ok ts) ↔
      ∃ us, (tokens file (withLiteral front b back)).result = .ok us) ∧
    (∀ ts us, (tokens file (withLiteral front a back)).result = .ok ts →
      (tokens file (withLiteral front b back)).result = .ok us →
      ts.map (·.kind) = us.map (·.kind) ∧
        OneDiffers (Token.Reworded a b) (ts.map (Token.moved Position.forget))
          (us.map (Token.moved Position.forget))) ∧
    ((∃ program, (parse config file (withLiteral front a back)).result = .ok program) ↔
      ∃ other, (parse config file (withLiteral front b back)).result = .ok other) ∧
    (∀ program other, (parse config file (withLiteral front a back)).result = .ok program →
      (parse config file (withLiteral front b back)).result = .ok other →
      AtMostOneDiffers (Node.Reworded a b) (program.moved Position.forget).children
        (other.moved Position.forget).children) ∧
    ((∃ script, (compileBy valid config file (withLiteral front a back)).result = .ok script) ↔
      ∃ script, (compileBy valid config file (withLiteral front b back)).result = .ok script) := by
  refine ⟨⟨fun ⟨_, h⟩ => ?_, fun ⟨_, h⟩ => ?_⟩, fun ts us hts hus => ?_,
    ⟨fun ⟨_, h⟩ => ?_, fun ⟨_, h⟩ => ?_⟩, fun program other hprogram hother => ?_,
    ⟨fun ⟨_, h⟩ => ?_, fun ⟨_, h⟩ => ?_⟩⟩
  · obtain ⟨us, hus, -⟩ := exists_tokens_withLiteral hfront ha hb h
    exact ⟨us, hus⟩
  · obtain ⟨ts, hts, -⟩ := exists_tokens_withLiteral hfront hb ha h
    exact ⟨ts, hts⟩
  · obtain ⟨us', hus', hdiffers⟩ := exists_tokens_withLiteral hfront ha hb hts
    obtain rfl := Except.ok.inj (hus'.symm.trans hus)
    have hkinds := Token.Reworded.map_kind_eq hdiffers
    rw [List.map_map, List.map_map] at hkinds
    exact ⟨hkinds, hdiffers⟩
  · obtain ⟨other, hother, -⟩ := exists_parse_withLiteral hfront ha hb h
    exact ⟨other, hother⟩
  · obtain ⟨program, hprogram, -⟩ := exists_parse_withLiteral hfront hb ha h
    exact ⟨program, hprogram⟩
  · obtain ⟨other', hother', hdiffers⟩ := exists_parse_withLiteral hfront ha hb hprogram
    obtain rfl := Except.ok.inj (hother'.symm.trans hother)
    exact hdiffers
  · exact exists_script_withLiteral hfront ha hb hverify h
  · exact exists_script_withLiteral hfront hb ha hverify h

/-- Brackets, braces and line ends in the argument of a command. -/
theorem literal_opaque_brackets :
    ∃ other, (parse {} none (withLiteral "f:():\x7b$g[" "]\x7d\n#;" "]\x7d")).result = .ok other ∧
      AtMostOneDiffers (Node.Reworded "a" "]\x7d\n#;")
        [.function ⟨"f", [], none, {}⟩ [.invocation ⟨"g", ["a"], {}⟩]]
        (other.moved Position.forget).children := by
  have hparse : (parse {} none (withLiteral "f:():\x7b$g[" "a" "]\x7d")).result =
      .ok ⟨[.function ⟨"f", [], none, ⟨none, 1, 1⟩⟩ [.invocation ⟨"g", ["a"], ⟨none, 1, 8⟩⟩]]⟩ := by
    cbv
  obtain ⟨-, -, hiff, htrees, -⟩ := literal_opaque (fun _ => true) {} rfl none "f:():\x7b$g[" "a"
    "]\x7d\n#;" "]\x7d" (by decide) (by decide) (by decide)
  obtain ⟨other, hother⟩ := hiff.mp ⟨_, hparse⟩
  exact ⟨other, hother, htrees _ _ hparse hother⟩

end Compiler

end CheckedScript
