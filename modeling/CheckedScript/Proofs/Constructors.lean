import CheckedScript.Proofs.ErrorPositions

/-!
Patterns and constructors fit together. A constructor finds its way through the tokens on its own,
but on tokens that its pattern covers there is little left to refuse: a second alias or return
type, a malformed parameter, or what is wrong with the body of a function.

Main result:
* `Builder.constructors_agree`: on what a pattern takes, its constructor makes a node or refuses for
  one of these reasons.
-/

namespace CheckedScript

open Token (Kind)
open Grammar

/-- What the rule of the given name refuses tokens for that its pattern covers. -/
inductive Rule.Refuses (b : Builder) (span : List Token) : String → CompileError → Prop
  | secondAlias {name extra : Token} (name_mem : name ∈ span) (extra_mem : extra ∈ span) :
      Refuses b span "import" (faultAt extra (.secondAlias name.text))
  | malformedParameter {t : Token} (mem : t ∈ span) :
      Refuses b span "function" (faultAt t (.malformedParameter t.text))
  | secondReturnType {name extra : Token} (name_mem : name ∈ span) (extra_mem : extra ∈ span) :
      Refuses b span "function" (faultAt extra (.secondReturnType name.text))
  | nestingTooDeep {opener : Token} (mem : opener ∈ span)
      (deep : b.options.maxDepth < b.depth + 1) :
      Refuses b span "function" (.nestingTooDeep b.options.maxDepth (some opener.position))
  /-- The body of a function is refused by the builder for it. -/
  | body {front body ends : List Token} {opener last : Token} {inner : Builder} {e : CompileError}
      (span_eq : span = front ++ opener :: (body ++ last :: ends))
      (opener_kind : opener.kind = .openBrace) (last_kind : last.kind = .closeBrace)
      (balanced : Pattern.Balanced .openBrace .closeBrace (body.map (·.kind)))
      (nested : b.nested .functionBody opener = .ok inner)
      (refused : (inner.build body).result = .error e) :
      Refuses b span "function" e

/-- Where the pattern of a rule covers tokens, there is at least one, and the constructor makes a
node of them or refuses them for one of its reasons. -/
def Rule.Agrees (b : Builder) (rule : Rule) : Prop :=
  ∀ span rest, rule.pattern.Covers span rest → span ≠ [] ∧
    ∀ e, (rule.build span).result = .error e → Rule.Refuses b span rule.name e

/-- Comments and invocations are never refused. -/
theorem Rule.Refuses.name_eq {b : Builder} {span : List Token} {name : String} {e : CompileError}
    (h : Refuses b span name e) : name = "import" ∨ name = "function" := by
  cases h with
  | secondAlias => exact .inl rfl
  | _ => exact .inr rfl

namespace Builder

theorem importing_agrees (b : Builder) : Rule.importing.Agrees b := by
  intro span rest hcovers
  obtain ⟨keyword, name, pairs, ends, k, rfl, -⟩ := covers_importPattern.mp hcovers
  refine ⟨List.cons_ne_nil _ _, fun e h => ?_⟩
  obtain ⟨extra, hextra, rfl⟩ := readImport_error h
  exact .secondAlias (by simp) (List.mem_cons_of_mem _ (List.mem_cons_of_mem _ hextra))

theorem comment_agrees (b : Builder) : Rule.comment.Agrees b := by
  intro span rest hcovers
  obtain ⟨t, ends, rfl, -⟩ := covers_commentPattern.mp hcovers
  exact ⟨List.cons_ne_nil t ends, nofun⟩

theorem invocation_agrees (b : Builder) : Rule.invocation.Agrees b := by
  intro span rest hcovers
  obtain ⟨mark, name, opener, inside, last, ends, rfl, -, -, hopener, hinside, hlast, -⟩ :=
    covers_invocationPattern.mp hcovers
  refine ⟨List.cons_ne_nil _ _, fun e h => ?_⟩
  have hread : readInvocation _ = .error e := h
  rw [readInvocation_eq hopener hinside hlast] at hread
  cases hread

/-- The tokens between the braces are built by themselves, one level deeper. -/
theorem function_agrees (b : Builder) :
    Rule.Agrees b ⟨"function", functionPattern, b.buildFunction⟩ := by
  intro span rest hcovers
  have hne : span ≠ [] := by
    obtain ⟨_, _, _, _, _, _, _, _, _, _, _, rfl, -⟩ := covers_functionPattern.mp hcovers
    exact List.cons_ne_nil _ _
  refine ⟨hne, fun e h => ?_⟩
  obtain ⟨name, front, opener, body, last, ends, rfl, -, hopener, hlast, hbody, hreason⟩ :=
    cases_of_buildFunction hcovers h
  obtain ⟨t, ht, rfl⟩ | ⟨extra, hextra, rfl⟩ | ⟨hdepth, rfl⟩ | ⟨hdepth, hrefused⟩ := hreason
  · exact .malformedParameter (by simp [ht])
  · exact .secondReturnType (by simp) (by simp [hextra])
  · exact .nestingTooDeep (by simp) hdepth
  · have hspan : name :: (front ++ opener :: (body ++ last :: ends)) =
        (name :: front) ++ opener :: (body ++ last :: ends) := rfl
    have hinner : (({ b with scope := .functionBody, depth := b.depth + 1 } : Builder).build
        body).result = .error e := by
      rw [build, result_buildBy]
      exact map_eq_error_iff.mpr hrefused
    exact .body hspan hopener hlast hbody (if_pos hdepth) hinner

theorem agrees_of_mem_rules {b : Builder} {scope : Scope} {rule : Rule}
    (h : rule ∈ scope.rules b) : rule.Agrees b := by
  cases scope with
  | topLevel =>
    simp only [Scope.rules, List.mem_cons, List.not_mem_nil, or_false] at h
    obtain rfl | rfl | rfl := h
    · exact b.importing_agrees
    · exact b.comment_agrees
    · exact b.function_agrees
  | functionBody =>
    simp only [Scope.rules, Rule.body, List.mem_cons, List.not_mem_nil, or_false] at h
    obtain rfl | rfl := h
    · exact b.invocation_agrees
    · exact b.comment_agrees

/-- A pattern that matches takes at least one token and no more than there are. The constructor
makes a node of what it takes, always for comments and invocations, or refuses it for one of its
reasons. On any tokens whatsoever, patterns, constructors and the reading of commands come to the
same end where every access by number is checked. -/
theorem constructors_agree (b : Builder) (scope : Scope) :
    b.rules = b.scope.rules b ∧
    (∀ rule ∈ scope.rules b, ∀ ts n, rule.pattern.matchLength ts = some n →
      0 < n ∧ n ≤ ts.length ∧
      ((∃ node, (rule.build (ts.take n)).result = .ok node) ∨
        ∃ e, (rule.build (ts.take n)).result = .error e ∧
          Rule.Refuses b (ts.take n) rule.name e) ∧
      (rule.name = "comment" ∨ rule.name = "command invocation" →
        ∃ node, (rule.build (ts.take n)).result = .ok node)) ∧
    (∀ rule ∈ scope.rules b, ∀ ts,
      Indexed.matchLength rule.pattern ts = .ok (rule.pattern.matchLength ts)) ∧
    List.Forall₂ Indexed.Rule.Refines (Indexed.rules scope b) (scope.rules b) ∧
    ∀ ts, Indexed.readCommand ts = .of (readCommand ts) := by
  refine ⟨b.rules_eq, fun rule hrule ts n hn => ?_,
    fun rule _ => Indexed.matchLength_refines rule.pattern, Indexed.rules_refine scope b,
    Indexed.readCommand_refines⟩
  obtain ⟨span, rest, rfl, rfl, hcovers⟩ := Pattern.matchLength_eq_some_iff.mp hn
  obtain ⟨hne, hrefuses⟩ := agrees_of_mem_rules hrule span rest hcovers
  refine ⟨List.length_pos_iff.mpr hne, by simp, ?_⟩
  rw [List.take_left]
  cases hresult : (rule.build span).result with
  | ok node => exact ⟨.inl ⟨node, rfl⟩, fun _ => ⟨node, rfl⟩⟩
  | error e =>
    have hrefused := hrefuses e hresult
    refine ⟨.inr ⟨e, rfl, hrefused⟩, fun hname => ?_⟩
    -- No reason is one of comments or invocations.
    generalize rule.name = name at hrefused hname
    cases hrefused <;> simp at hname

/-- A word alone in the body of a function is no statement. -/
theorem constructors_agree_word_in_body :
    let ts : List Token := [⟨.identifier, "f", {}⟩, ⟨.colon, ":", {}⟩, ⟨.openParen, "(", {}⟩,
      ⟨.closeParen, ")", {}⟩, ⟨.colon, ":", {}⟩, ⟨.openBrace, "\x7b", {}⟩,
      ⟨.identifier, "ls", {}⟩, ⟨.closeBrace, "\x7d", {}⟩, ⟨.closeBrace, "\x7d", {}⟩]
    functionPattern.matchLength ts = some 8 ∧
      ∃ e, (({} : Builder).buildFunction (ts.take 8)).result = .error e ∧
        Rule.Refuses {} (ts.take 8) "function" e := by
  intro ts
  have hmatch : functionPattern.matchLength ts = some 8 := by decide +kernel
  have hrefused : ∀ node, (({} : Builder).buildFunction (ts.take 8)).result ≠ .ok node := by
    intro node h
    have hbuilt : (({} : Builder).buildFunction (ts.take 8)).result.isOk = false := by
      decide +kernel
    rw [h] at hbuilt
    cases hbuilt
  obtain ⟨-, hrules, -⟩ := constructors_agree {} .topLevel
  obtain ⟨-, -, ⟨node, hnode⟩ | hrefuses, -⟩ :=
    hrules ⟨"function", functionPattern, Builder.buildFunction {}⟩ (by simp [Scope.rules]) ts 8
      hmatch
  · exact absurd hnode (hrefused node)
  · exact ⟨hmatch, hrefuses⟩

end Builder

end CheckedScript
