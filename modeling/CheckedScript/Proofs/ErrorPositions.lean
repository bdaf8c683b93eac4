import CheckedScript.Proofs.Bounds

/-!
Where errors of the grammar stand. A rule runs on tokens that its pattern covers, so the
fallbacks of its constructor for tokens that are not there are out of reach: what a builder fails
with stands at one of its tokens.

Main results:
* `Builder.cases_of_buildFunction`: why a function is refused.
* `Builder.standsAmong_nodesBy`: a builder fails at one of its tokens.
-/

namespace CheckedScript

open Grammar

/-- An error of the front end that stands at `p`. -/
inductive CompileError.StandsAt (p : Position) : CompileError → Prop
  | malformed (fault : SourceFault) : StandsAt p (.malformed fault (some p))
  | nestingTooDeep (limit : Nat) : StandsAt p (.nestingTooDeep limit (some p))

/-- An error that stands at one of the tokens. -/
def CompileError.StandsAmong (ts : List Token) (e : CompileError) : Prop :=
  ∃ t ∈ ts, e.StandsAt t.position

theorem CompileError.StandsAmong.mono {ts us : List Token} {e : CompileError}
    (h : e.StandsAmong ts) (hsub : ts ⊆ us) : e.StandsAmong us := by
  obtain ⟨t, ht, hat⟩ := h
  exact ⟨t, hsub ht, hat⟩

/-! ## Constructors -/

namespace Grammar

theorem mem_of_mem_aliases {ts : List Token} {t : Token} (h : t ∈ aliases ts) : t ∈ ts := by
  fun_induction aliases ts with
  | case1 a b ts _ ih =>
    obtain rfl | h := List.mem_cons.mp h
    · simp
    · exact List.mem_cons_of_mem _ (ih h)
  | case2 a b ts _ ih => exact List.mem_cons_of_mem _ (ih h)
  | case3 => cases h

theorem readImport_error {keyword name : Token} {ts : List Token} {e : CompileError}
    (h : readImport (keyword :: name :: ts) = .error e) :
    ∃ extra ∈ ts, e = faultAt extra (.secondAlias name.text) := by
  rw [readImport] at h
  split at h
  case h_1 => cases h
  case h_2 => cases h
  case h_3 first extra others haliases =>
    exact ⟨extra, mem_of_mem_aliases (by rw [haliases]; simp), (Except.error.inj h).symm⟩

/-- The type of a parameter can be read if the pattern covers it, so only a token that starts no
parameter is refused. -/
theorem readParams_error {ts : List Token} {e : CompileError} (h : readParams ts = .error e) :
    ∃ t ∈ ts, e = faultAt t (.malformedParameter t.text) := by
  induction hlength : ts.length using Nat.strongRecOn generalizing ts with
  | ind length ih =>
    subst hlength
    rcases ts with _ | ⟨t, ts⟩
    · rw [readParams] at h
      cases h
    cases hmatch : paramPattern.matchLength (t :: ts) with
    | none =>
      rw [readParams_of_none hmatch] at h
      split at h
      · obtain ⟨u, hu, he⟩ := ih ts.length (by simp) h rfl
        exact ⟨u, List.mem_cons_of_mem t hu, he⟩
      · cases h
        exact ⟨t, List.mem_cons_self .., rfl⟩
    | some n =>
      obtain ⟨span, rest, hcut, rfl, hcovers⟩ := Pattern.matchLength_eq_some_iff.mp hmatch
      obtain ⟨name, colons, type, rfl, -, -, hkind⟩ := covers_paramPattern.mp hcovers
      rw [List.cons_append] at hcut
      obtain ⟨rfl, rfl⟩ := List.cons.inj hcut
      obtain ⟨value, hvalue⟩ := contains_types_iff.mp hkind
      rw [readParams_of_covers hcovers, readType_eq_ok_iff.mpr hvalue] at h
      obtain ⟨u, hu, he⟩ := ih rest.length (by simp; omega) (map_eq_error_iff.mp h) rfl
      exact ⟨u, by simp [hu], he⟩

theorem readReturnType_error {name : String} {ts : List Token} {e : CompileError}
    (hts : ∀ t ∈ ts, types.contains t.kind) (h : readReturnType name ts = .error e) :
    ∃ extra ∈ ts, e = faultAt extra (.secondReturnType name) := by
  rcases ts with _ | ⟨t, _ | ⟨extra, ts⟩⟩
  · cases h
  · obtain ⟨value, hvalue⟩ := contains_types_iff.mp (hts t (List.mem_singleton_self t))
    rw [readReturnType, readType_eq_ok_iff.mpr hvalue] at h
    cases h
  · cases h
    exact ⟨extra, by simp, rfl⟩

end Grammar

/-! ## Rules and builders -/

/-- Where the pattern of a rule covers tokens, the rule fails at one of them if it fails. -/
def Rule.FailsAtToken (rule : Rule) : Prop :=
  ∀ span rest e, rule.pattern.Covers span rest → span ≠ [] → (rule.build span).result = .error e →
    e.StandsAmong span

namespace Builder

section

variable {P : List Token → CompileError → Prop}
  (hmono : ∀ ⦃ts us e⦄, ts ⊆ us → P ts e → P us e) {rules : List Rule}
  (hrules : ∀ rule ∈ rules, ∀ span rest e, rule.pattern.Covers span rest → span ≠ [] →
    (rule.build span).result = .error e → P span e)

include hmono hrules

/-- What holds of the errors of all rules holds of the errors of a step. -/
theorem error_of_stepBy {offset : Nat} {ts : List Token} {e : CompileError}
    (h : (stepBy offset ts rules).result = .error e) : P ts e := by
  induction rules with
  | nil => cases h
  | cons rule rules ih =>
    obtain ⟨hrule, hrules⟩ := List.forall_mem_cons.mp hrules
    rw [result_stepBy_cons] at h
    split at h
    case h_1 n hn =>
      obtain ⟨span, rest, rfl, hlength, hcovers⟩ := Pattern.matchLength_eq_some_iff.mp hn
      rw [← Nat.succ_eq_add_one, ← hlength, List.take_left] at h
      have hne : span ≠ [] := List.ne_nil_of_length_eq_add_one hlength
      exact hmono (List.subset_append_left span rest)
        (hrule span rest e hcovers hne (map_eq_error_iff.mp h))
    case h_2 => exact ih hrules h

/-- What holds of the errors of all rules, and where no rule matches, holds of the errors of a
builder. -/
theorem error_of_nodesBy {scope : Scope} {lenient : Bool}
    (hnone : ∀ t ts offset, (stepBy offset (t :: ts) rules).result = .ok none →
      P (t :: ts) (faultAt t (scope.diagnose (t :: ts))))
    {offset : Nat} {ts : List Token} {e : CompileError}
    (h : (nodesBy scope lenient rules offset ts).result = .error e) : P ts e := by
  induction hlen : ts.length using Nat.strongRecOn generalizing ts offset with
  | ind length ih =>
    subst hlen
    cases ts with
    | nil => rw [result_nodesBy_nil] at h; cases h
    | cons t ts =>
      have hlater : ∀ {n offset}, (nodesBy scope lenient rules offset (ts.drop n)).result =
          .error e → P (t :: ts) e := by
        intro n offset hrest
        have hshort : (ts.drop n).length < (t :: ts).length := by
          simp only [List.length_drop, List.length_cons]
          omega
        exact hmono (List.subset_cons_of_subset t (List.drop_subset n ts)) (ih _ hshort hrest rfl)
      by_cases ht : t.kind = .semicolon
      · rw [result_nodesBy_semicolon _ _ _ _ ht] at h
        exact hlater (n := 0) h
      · rw [result_nodesBy_step _ _ _ _ ht] at h
        split at h
        case h_1 hstep =>
          cases h
          exact error_of_stepBy hmono hrules hstep
        case h_2 => exact hlater (map_eq_error_iff.mp h)
        case h_3 hstep =>
          split at h
          · exact hlater (n := 0) h
          · cases h
            exact hnone t ts offset hstep

end

/-- A builder fails at one of the tokens. -/
theorem standsAmong_nodesBy {rules : List Rule} (hrules : ∀ rule ∈ rules, rule.FailsAtToken)
    {scope : Scope} {lenient : Bool} {offset : Nat} {ts : List Token} {e : CompileError}
    (h : (nodesBy scope lenient rules offset ts).result = .error e) : e.StandsAmong ts :=
  error_of_nodesBy (fun _ _ _ hsub hat => hat.mono hsub) hrules
    (fun t _ _ _ => ⟨t, List.mem_cons_self .., .malformed _⟩) h

theorem importing_failsAtToken : Rule.importing.FailsAtToken := by
  intro span rest e hcovers _ h
  obtain ⟨keyword, name, pairs, ends, k, rfl, -⟩ := covers_importPattern.mp hcovers
  obtain ⟨extra, hextra, rfl⟩ := readImport_error h
  exact ⟨extra, List.mem_cons_of_mem _ (List.mem_cons_of_mem _ hextra), .malformed _⟩

theorem comment_failsAtToken : Rule.comment.FailsAtToken := by
  intro span rest e _ hne h
  obtain ⟨t, ts, rfl⟩ := List.exists_cons_of_ne_nil hne
  cases h

theorem invocation_failsAtToken : Rule.invocation.FailsAtToken := by
  intro span rest e hcovers _ h
  obtain ⟨mark, name, opener, inside, last, ends, rfl, -, -, hopener, hinside, hlast, -⟩ :=
    covers_invocationPattern.mp hcovers
  have hread : readInvocation _ = .error e := h
  rw [readInvocation_eq hopener hinside hlast] at hread
  cases hread

theorem body_failsAtToken : ∀ rule ∈ Rule.body, rule.FailsAtToken := by
  simp [Rule.body, invocation_failsAtToken, comment_failsAtToken]

/-- A function whose tokens are covered is refused for a parameter, for its return type, for its
depth, or for what stands between its braces. -/
theorem cases_of_buildFunction {b : Builder} {span rest : List Token} {e : CompileError}
    (hcovers : functionPattern.Covers span rest) (h : (b.buildFunction span).result = .error e) :
    ∃ name front opener body last ends, span = name :: (front ++ opener :: (body ++ last :: ends)) ∧
      name.kind = .identifier ∧ opener.kind = .openBrace ∧ last.kind = .closeBrace ∧
      Pattern.Balanced .openBrace .closeBrace (body.map (·.kind)) ∧
      ((∃ t ∈ front, e = faultAt t (.malformedParameter t.text)) ∨
        (∃ extra ∈ front, e = faultAt extra (.secondReturnType name.text)) ∨
        b.options.maxDepth < b.depth + 1 ∧
          e = .nestingTooDeep b.options.maxDepth (some opener.position) ∨
        b.depth + 1 ≤ b.options.maxDepth ∧
          (nodesBy .functionBody b.options.lenient Rule.body 0 body).result = .error e) := by
  obtain ⟨name, colon, paren, inside, close, colon', declared, opener, body, last, ends, rfl,
    hname, hcolon, hparen, hinside, hclose, hcolon', hdeclared, hopener, hbody, hlast, -⟩ :=
    covers_functionPattern.mp hcovers
  refine ⟨name, colon :: paren :: (inside ++ close :: colon' :: declared), opener, body, last, ends,
    by simp, hname, hopener, hlast, hbody, ?_⟩
  rw [result_buildFunction, readDeclaration_eq hname hcolon hparen hinside hclose hcolon'
    hdeclared hopener hbody hlast] at h
  obtain hread | ⟨declaration, hread, hbuild⟩ := bind_eq_error_iff.mp h
  · obtain hparams | ⟨params, -, hread⟩ := bind_eq_error_iff.mp hread
    · obtain ⟨t, ht, rfl⟩ := readParams_error hparams
      exact .inl ⟨t, by simp [ht], rfl⟩
    obtain htype | ⟨value, -, hread⟩ := bind_eq_error_iff.mp hread
    · obtain ⟨extra, hextra, rfl⟩ := readReturnType_error hdeclared htype
      exact .inr (.inl ⟨extra, by simp [hextra], rfl⟩)
    · cases hread
  · obtain ⟨params, -, hread⟩ := bind_eq_ok_iff.mp hread
    obtain ⟨value, -, hread⟩ := bind_eq_ok_iff.mp hread
    cases hread
    split at hbuild
    case isTrue hdepth => exact .inr (.inr (.inr ⟨hdepth, map_eq_error_iff.mp hbuild⟩))
    case isFalse hdepth =>
      cases hbuild
      exact .inr (.inr (.inl ⟨Nat.lt_of_not_le hdepth, rfl⟩))

theorem function_failsAtToken (b : Builder) :
    Rule.FailsAtToken ⟨"function", functionPattern, b.buildFunction⟩ := by
  intro span rest e hcovers _ h
  obtain ⟨name, front, opener, body, last, ends, rfl, -, -, -, -, hreason⟩ :=
    cases_of_buildFunction hcovers h
  obtain ⟨t, ht, rfl⟩ | ⟨extra, hextra, rfl⟩ | ⟨-, rfl⟩ | ⟨-, hbody⟩ := hreason
  · exact ⟨t, by simp [ht], .malformed _⟩
  · exact ⟨extra, by simp [hextra], .malformed _⟩
  · exact ⟨opener, by simp, .nestingTooDeep _⟩
  · exact (standsAmong_nodesBy body_failsAtToken hbody).mono fun t ht => by simp [ht]

theorem standsAmong_build {b : Builder} (hscope : b.scope = .topLevel) {ts : List Token}
    {e : CompileError} (h : (b.build ts).result = .error e) : e.StandsAmong ts := by
  rw [build, result_buildBy] at h
  refine standsAmong_nodesBy ?_ (map_eq_error_iff.mp h)
  simp [rules, hscope, importing_failsAtToken, comment_failsAtToken, b.function_failsAtToken]

end Builder

end CheckedScript
