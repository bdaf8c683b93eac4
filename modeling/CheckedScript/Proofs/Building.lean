import CheckedScript.Program.Builder
import CheckedScript.Proofs.Derivation

/-!
What a builder makes of a list of tokens, as a result without its log. A rule reads the
statements of one form, a list of rules with different first kinds reads the union of theirs, and
a strict builder accepts exactly sequences of statements, with the nodes that these stand for.

Main results:
* `Builder.nodesBy_induct`: induction on what a builder takes off its tokens.
* `Builder.result_nodesBy_eq_ok_iff`: strict building is reading a sequence of statements.
* `Builder.result_build_eq_ok_iff_derives`: the same in terms of derivations.
-/

namespace CheckedScript

open Token (Kind)
open Grammar

/-- The rule takes the statements of one form, which start with a token of kind `kind`, and as
many semicolons behind them as there are. -/
structure Rule.Reads (rule : Rule) (kind : Kind) (Statement : List Token → Node → Prop) :
    Prop where
  head : ∀ ts : List Token, (∀ t ∈ ts.head?, t.kind ≠ kind) → rule.pattern.matchLength ts = none
  iff : ∀ span rest node,
    rule.pattern.Covers span rest ∧ (rule.build span).result = .ok node ↔
      Statement span node ∧ Ended rest

theorem Rule.Reads.head_kind {rule : Rule} {kind : Kind} {Statement : List Token → Node → Prop}
    (h : rule.Reads kind Statement) {span : List Token} {node : Node} (hs : Statement span node) :
    ∃ t ∈ span.head?, t.kind = kind := by
  have hcover := ((h.iff span [] node).mpr ⟨hs, by simp [Ended]⟩).1
  rw [Pattern.Covers, List.append_nil] at hcover
  cases span with
  | nil => rw [h.head [] (by simp)] at hcover; cases hcover
  | cons t ts =>
    refine ⟨t, rfl, Decidable.byContradiction fun hne => ?_⟩
    rw [h.head (t :: ts) (by simpa using hne)] at hcover
    cases hcover

theorem Rule.Reads.head_ne {rule : Rule} {kind other : Kind}
    {Statement : List Token → Node → Prop} (h : rule.Reads kind Statement) (hne : kind ≠ other)
    {span : List Token} {node : Node} (hs : Statement span node) :
    ∃ t ∈ span.head?, t.kind ≠ other := by
  obtain ⟨t, ht, rfl⟩ := h.head_kind hs
  exact ⟨t, ht, hne⟩

namespace Builder

/-! ## One step -/

theorem result_stepBy_cons {offset : Nat} {ts : List Token} {rule : Rule} {rules : List Rule} :
    (stepBy offset ts (rule :: rules)).result =
      match rule.pattern.matchLength ts with
      | some (n + 1) => (rule.build (ts.take (n + 1))).result.map fun node => some (node, n + 1)
      | _ => (stepBy offset ts rules).result := by
  rw [stepBy]
  rcases rule.pattern.matchLength ts with _ | _ | n
  · rfl
  · rfl
  · simp only [Run.result_bind, Run.result_report, Run.result_pure]
    cases (rule.build (ts.take (n + 1))).result <;> rfl

/-- There is no step where no rule matches anything. -/
theorem stepBy_eq_none_iff {offset : Nat} {ts : List Token} {rules : List Rule} :
    (stepBy offset ts rules).result = .ok none ↔
      ∀ rule ∈ rules, ∀ n, rule.pattern.matchLength ts ≠ some (n + 1) := by
  induction rules with
  | nil => exact ⟨fun _ => nofun, fun _ => rfl⟩
  | cons rule rules ih =>
    rw [result_stepBy_cons, List.forall_mem_cons, ← ih]
    rcases rule.pattern.matchLength ts with _ | _ | n
    · simp
    · simp
    · constructor
      · intro h
        obtain ⟨node, -, hnode⟩ := map_eq_ok_iff.mp h
        cases hnode
      · intro h
        exact absurd rfl (h.1 n)

/-- One step with the rules finds a statement at the front, together with all the semicolons
behind it. -/
def Steps (rules : List Rule) (Statement : List Token → Node → Prop) : Prop :=
  ∀ offset ts node n,
    (stepBy offset ts rules).result = .ok (some (node, n)) ↔
      ∃ span rest, ts = span ++ rest ∧ span.length = n ∧ Statement span node ∧ Ended rest

theorem steps_nil : Steps [] fun _ _ => False := by
  intro offset ts node n
  constructor
  · intro h; cases h
  · rintro ⟨_, _, _, _, h, _⟩; exact h.elim

theorem steps_cons {rule : Rule} {rules : List Rule} {kind : Kind}
    {Statement Others : List Token → Node → Prop} (hrule : rule.Reads kind Statement)
    (hrules : Steps rules Others)
    (hdiff : ∀ span node, Others span node → ∃ t ∈ span.head?, t.kind ≠ kind) :
    Steps (rule :: rules) fun span node => Statement span node ∨ Others span node := by
  intro offset ts node n
  -- Only one of the two can match: they start with tokens of different kinds.
  have hnone : ∀ span rest, Others span node → rule.pattern.matchLength (span ++ rest) = none := by
    intro span rest h
    obtain ⟨t, ht, hne⟩ := hdiff span node h
    refine hrule.head _ fun s hs => ?_
    rw [List.head?_append, Option.mem_def.mp ht] at hs
    cases hs
    exact hne
  rw [result_stepBy_cons]
  constructor
  · intro h
    split at h
    · next m hm =>
      obtain ⟨made, hbuild, heq⟩ := map_eq_ok_iff.mp h
      cases heq
      obtain ⟨span, rest, rfl, hlen, hcover⟩ := Pattern.matchLength_eq_some_iff.mp hm
      rw [← Nat.succ_eq_add_one, ← hlen, List.take_left] at hbuild
      obtain ⟨hs, hrest⟩ := (hrule.iff span rest node).mp ⟨hcover, hbuild⟩
      exact ⟨span, rest, rfl, hlen, Or.inl hs, hrest⟩
    · obtain ⟨span, rest, rfl, hlen, hs, hrest⟩ := (hrules offset ts node n).mp h
      exact ⟨span, rest, rfl, hlen, Or.inr hs, hrest⟩
  · rintro ⟨span, rest, rfl, rfl, hs | hs, hrest⟩
    · obtain ⟨hcover, hbuild⟩ := (hrule.iff span rest node).mpr ⟨hs, hrest⟩
      obtain ⟨t, ht, _⟩ := hrule.head_kind hs
      cases span with
      | nil => cases ht
      | cons u span =>
        have htake : ((u :: span) ++ rest).take (span.length + 1) = u :: span := by simp
        rw [Pattern.Covers, List.length_cons] at hcover
        simp only [hcover, htake, hbuild, List.length_cons]
        rfl
    · simp only [hnone span rest hs]
      exact (hrules offset _ node _).mpr ⟨span, rest, rfl, rfl, hs, hrest⟩

theorem steps_singleton {rule : Rule} {kind : Kind} {Statement : List Token → Node → Prop}
    (hrule : rule.Reads kind Statement) : Steps [rule] Statement := by
  have h := steps_cons hrule steps_nil (by simp)
  simpa only [or_false] using h

/-! ## All the steps -/

theorem result_stepBy_offset (offset offset' : Nat) (ts : List Token) (rules : List Rule) :
    (stepBy offset ts rules).result = (stepBy offset' ts rules).result := by
  induction rules with
  | nil => rfl
  | cons rule rules ih => rw [result_stepBy_cons, result_stepBy_cons, ih]

section

variable (scope : Scope) (lenient : Bool) (rules : List Rule)

@[simp] theorem result_nodesBy_nil (offset : Nat) :
    (nodesBy scope lenient rules offset []).result = .ok [] := by
  rw [nodesBy]
  rfl

theorem result_nodesBy_semicolon (offset : Nat) {t : Token} (ht : t.kind = .semicolon)
    (ts : List Token) :
    (nodesBy scope lenient rules offset (t :: ts)).result =
      (nodesBy scope lenient rules (offset + 1) ts).result := by
  rw [nodesBy, if_pos ht]

theorem result_nodesBy_step (offset : Nat) {t : Token} (ht : t.kind ≠ .semicolon)
    (ts : List Token) :
    (nodesBy scope lenient rules offset (t :: ts)).result =
      match (stepBy offset (t :: ts) rules).result with
      | .error e => .error e
      | .ok (some (node, n)) =>
        (nodesBy scope lenient rules (offset + n) (ts.drop (n - 1))).result.map (node :: ·)
      | .ok none =>
        if lenient then (nodesBy scope lenient rules (offset + 1) ts).result
        else .error (.malformed (scope.diagnose (t :: ts)) (some t.position)) := by
  rw [nodesBy, if_neg ht, Run.result_bind]
  cases (stepBy offset (t :: ts) rules).result with
  | error e => rfl
  | ok found =>
    rcases found with _ | ⟨node, n⟩
    · cases lenient
      · rfl
      · simp [Except.bind]
    · simp only [Except.bind, Run.result_bind, Run.result_pure]
      cases (nodesBy scope lenient rules (offset + n) (ts.drop (n - 1))).result <;> rfl

/-- Offsets only appear in the log. -/
theorem result_nodesBy_offset (offset offset' : Nat) (ts : List Token) :
    (nodesBy scope lenient rules offset ts).result =
      (nodesBy scope lenient rules offset' ts).result := by
  induction hlen : ts.length using Nat.strongRecOn generalizing ts offset offset' with
  | ind length ih =>
    subst hlen
    cases ts with
    | nil => simp
    | cons t ts =>
      by_cases ht : t.kind = .semicolon
      · rw [result_nodesBy_semicolon _ _ _ _ ht, result_nodesBy_semicolon _ _ _ _ ht]
        exact ih _ (by simp) _ _ _ rfl
      · rw [result_nodesBy_step _ _ _ _ ht, result_nodesBy_step _ _ _ _ ht,
          result_stepBy_offset offset offset']
        split
        · rfl
        · rw [ih _ (by simp only [List.length_drop, List.length_cons]; omega) _ _ _ rfl]
        · rw [ih _ (by simp) _ _ _ rfl]

theorem result_nodesBy_semicolons (offset offset' : Nat) {ends : List Token}
    (hends : Semicolons ends) (ts : List Token) :
    (nodesBy scope lenient rules offset (ends ++ ts)).result =
      (nodesBy scope lenient rules offset' ts).result := by
  induction ends generalizing offset with
  | nil => exact result_nodesBy_offset ..
  | cons t ends ih =>
    obtain ⟨ht, hends⟩ := semicolons_cons.mp hends
    rw [List.cons_append, result_nodesBy_semicolon _ _ _ _ ht]
    exact ih _ hends

end

/-- What the lemmas on sequences need of a form of statements: it does not start with a
semicolon, and semicolons behind it belong to it. -/
structure Terminated (Statement : List Token → Node → Prop) : Prop where
  head : ∀ span node, Statement span node → ∃ t ∈ span.head?, t.kind ≠ .semicolon
  extend : ∀ span node ends, Statement span node → Semicolons ends → Statement (span ++ ends) node

theorem ended_dropWhile (ts : List Token) :
    Ended (ts.dropWhile fun t => t.kind = .semicolon) := by
  intro t ht
  have := List.head?_dropWhile_not (fun t : Token => decide (t.kind = .semicolon)) ts
  rw [Option.mem_def.mp ht] at this
  simpa using this

section

variable {rules : List Rule} {Statement : List Token → Node → Prop} (hsteps : Steps rules Statement)
  (hterm : Terminated Statement) (scope : Scope) (lenient : Bool)

include hsteps hterm

/-- A statement at the front becomes one node, and the rest is built as if it stood alone. -/
theorem result_nodesBy_statement (offset offset' : Nat) {span : List Token} {node : Node}
    (hs : Statement span node) (ts : List Token) :
    (nodesBy scope lenient rules offset (span ++ ts)).result =
      (nodesBy scope lenient rules offset' ts).result.map (node :: ·) := by
  -- The step also takes the semicolons in front of `ts`, which building `ts` alone skips.
  let ends := ts.takeWhile fun t => t.kind = .semicolon
  let rest := ts.dropWhile fun t => t.kind = .semicolon
  have hts : ts = ends ++ rest := List.takeWhile_append_dropWhile.symm
  have hends : Semicolons ends := fun t ht => by
    simpa using List.all_eq_true.mp List.all_takeWhile t ht
  have hlong := hterm.extend span node ends hs hends
  obtain ⟨t, ht, hkind⟩ := hterm.head _ _ hlong
  obtain ⟨tail, hspan⟩ : ∃ tail, span ++ ends = t :: tail := List.head?_eq_some_iff.mp ht
  have hstep := (hsteps offset (t :: (tail ++ rest)) node (tail.length + 1)).mpr
    ⟨t :: tail, rest, rfl, rfl, hspan ▸ hlong, ended_dropWhile ts⟩
  rw [hts, ← List.append_assoc, hspan, List.cons_append, result_nodesBy_step _ _ _ _ hkind, hstep,
    result_nodesBy_semicolons scope lenient rules offset' 0 hends rest]
  simp only [Nat.add_sub_cancel, List.drop_left]
  rw [result_nodesBy_offset scope lenient rules _ 0]

/-- Induction on what is built: token lists are used up by semicolons, statements and, if the
builder is lenient, skipped tokens. -/
theorem nodesBy_induct {motive : List Token → List Node → Prop} (nil : motive [] [])
    (semicolon : ∀ t ts nodes, t.kind = .semicolon → motive ts nodes → motive (t :: ts) nodes)
    (statement : ∀ span node ts nodes, Statement span node → motive ts nodes →
      motive (span ++ ts) (node :: nodes))
    (skipped : ∀ t ts nodes, lenient = true → t.kind ≠ .semicolon →
      (stepBy 0 (t :: ts) rules).result = .ok none → motive ts nodes → motive (t :: ts) nodes)
    {offset : Nat} {ts : List Token} {nodes : List Node}
    (h : (nodesBy scope lenient rules offset ts).result = .ok nodes) : motive ts nodes := by
  induction hlen : ts.length using Nat.strongRecOn generalizing ts offset nodes with
  | ind length ih =>
    subst hlen
    cases ts with
    | nil =>
      rw [result_nodesBy_nil] at h
      cases h
      exact nil
    | cons t ts =>
      by_cases ht : t.kind = .semicolon
      · rw [result_nodesBy_semicolon _ _ _ _ ht] at h
        exact semicolon t ts nodes ht (ih _ (by simp) h rfl)
      · rw [result_nodesBy_step _ _ _ _ ht] at h
        split at h
        · cases h
        · next node n hstep =>
          obtain ⟨span, rest, hts, rfl, hs, _⟩ := (hsteps _ _ _ _).mp hstep
          -- A statement has a first token, so the rest is shorter.
          obtain ⟨u, hu, _⟩ := hterm.head span node hs
          cases span with
          | nil => cases hu
          | cons u span =>
            rw [List.cons_append] at hts
            obtain ⟨rfl, rfl⟩ := List.cons.inj hts
            rw [List.length_cons, Nat.add_sub_cancel, List.drop_left] at h
            obtain ⟨others, hrest, rfl⟩ := map_eq_ok_iff.mp h
            have hshort : rest.length < (t :: (span ++ rest)).length := by
              simp only [List.length_cons, List.length_append]
              omega
            exact statement _ _ _ _ hs (ih _ hshort hrest rfl)
        · next hstep =>
          rw [result_stepBy_offset offset 0] at hstep
          split at h
          · next hlenient => exact skipped t ts nodes hlenient ht hstep (ih _ (by simp) h rfl)
          · cases h

theorem statements_of_nodesBy {offset : Nat} {ts : List Token} {nodes : List Node}
    (h : (nodesBy scope false rules offset ts).result = .ok nodes) :
    Statements Statement ts nodes :=
  nodesBy_induct hsteps hterm scope false .nil (fun _ _ _ => .semicolon)
    (fun _ _ _ _ => .statement) nofun h

/-- A strict builder accepts exactly the sequences of statements. -/
theorem result_nodesBy_eq_ok_iff (offset : Nat) {ts : List Token} {nodes : List Node} :
    (nodesBy scope false rules offset ts).result = .ok nodes ↔ Statements Statement ts nodes := by
  constructor
  · exact statements_of_nodesBy hsteps hterm scope
  · intro h
    induction h generalizing offset with
    | nil => rw [result_nodesBy_nil]
    | semicolon ht _ ih => rw [result_nodesBy_semicolon _ _ _ _ ht, ih]
    | statement hs _ ih =>
      rw [result_nodesBy_statement hsteps hterm scope false offset 0 hs, ih]
      rfl

end

end Builder

/-! ## The rules -/

theorem matchLength_sequence_exact {kind : Kind} {kinds : List Kind} {ps : List Pattern}
    {ts : List Token} (h : ∀ t ∈ ts.head?, t.kind ≠ kind) :
    (Pattern.sequence (.exact (kind :: kinds) :: ps)).matchLength ts = none := by
  rw [Pattern.matchLength, Pattern.matchSequence, Pattern.matchLength]
  cases ts with
  | nil => rfl
  | cons t ts => rw [Pattern.matchExact, if_neg (h t rfl)]

theorem Rule.importing_reads : Rule.importing.Reads .importKeyword ImportStatement :=
  ⟨fun _ => matchLength_sequence_exact, fun _ _ _ => importStatement_iff⟩

theorem Rule.comment_reads : Rule.comment.Reads .comment CommentStatement :=
  ⟨fun _ => matchLength_sequence_exact, fun _ _ _ => commentStatement_iff⟩

theorem Rule.invocation_reads : Rule.invocation.Reads .execMarker InvocationStatement :=
  ⟨fun _ => matchLength_sequence_exact, fun _ _ _ => invocationStatement_iff⟩

namespace Builder

theorem result_buildBy (b : Builder) (rules : List Rule) (ts : List Token) :
    (b.buildBy rules ts).result =
      (nodesBy b.scope b.options.lenient rules 0 ts).result.map Program.mk := by
  rw [buildBy]
  simp only [Run.result_bind, Run.result_report, Run.result_pure]
  cases (nodesBy b.scope b.options.lenient rules 0 ts).result <;> rfl

/-- What `b` makes of the body of a function. -/
def Body (b : Builder) (body : List Token) (nodes : List Node) : Prop :=
  b.depth + 1 ≤ b.options.maxDepth ∧
    (nodesBy .functionBody b.options.lenient Rule.body 0 body).result = .ok nodes

theorem result_buildFunction (b : Builder) (ts : List Token) :
    (b.buildFunction ts).result = (readDeclaration ts).bind fun declaration =>
      if b.depth + 1 ≤ b.options.maxDepth then
        (nodesBy .functionBody b.options.lenient Rule.body 0 declaration.body).result.map
          (Node.function declaration.signature)
      else .error (.nestingTooDeep b.options.maxDepth (some declaration.opener.position)) := by
  rw [buildFunction, Run.result_bind, Run.result_ofExcept]
  congr 1
  funext declaration
  rw [Run.result_bind, Run.result_ofExcept, nested]
  split
  · simp only [Except.bind, Run.result_bind, result_buildBy, Run.result_pure]
    cases (nodesBy .functionBody b.options.lenient Rule.body 0 declaration.body).result <;> rfl
  · rfl

theorem result_buildFunction_eq_ok_iff {b : Builder} {ts : List Token} {node : Node} :
    (b.buildFunction ts).result = .ok node ↔
      ∃ declaration nodes, readDeclaration ts = .ok declaration ∧ b.Body declaration.body nodes ∧
        node = .function declaration.signature nodes := by
  rw [result_buildFunction, bind_eq_ok_iff]
  constructor
  · rintro ⟨declaration, hread, h⟩
    split at h
    case isTrue hdepth =>
      obtain ⟨nodes, hnodes, rfl⟩ := map_eq_ok_iff.mp h
      exact ⟨declaration, nodes, hread, ⟨hdepth, hnodes⟩, rfl⟩
    case isFalse => cases h
  · rintro ⟨declaration, nodes, hread, ⟨hdepth, hnodes⟩, rfl⟩
    exact ⟨declaration, hread, by rw [if_pos hdepth, hnodes]; rfl⟩

/-- The kinds of tokens between the parentheses of a function. -/
theorem params_kind_mem {ts : List Token} {params : List Param} (h : Params ts params) :
    ∀ t ∈ ts, t.kind ∈ [Kind.comma, .semicolon, .identifier, .colon, .stringType,
      .stringArrayType] := by
  induction h with
  | nil => simp
  | separator hkind _ ih =>
    intro t ht
    rcases List.mem_cons.mp ht with rfl | ht
    · rcases hkind with h | h <;> rw [h] <;> decide
    · exact ih t ht
  | param hname hcolons htype _ ih =>
    intro t ht
    rcases List.mem_cons.mp ht with rfl | ht
    · rw [hname]; decide
    rcases List.mem_append.mp ht with ht | ht
    · rw [hcolons t ht]; decide
    rcases List.mem_cons.mp ht with rfl | ht
    · generalize t.kind = kind at htype ⊢
      cases htype <;> decide
    · exact ih t ht

theorem params_kinds {ts : List Token} {params : List Param} (h : Params ts params) :
    ∀ t ∈ ts, t.kind ≠ .closeParen := by
  intro t ht hkind
  have hmem := params_kind_mem h t ht
  rw [hkind] at hmem
  revert hmem
  decide

/-- The kinds of tokens in front of the body of a function. -/
theorem header_kind_mem {name colon paren close colon' opener : Token} {inside types : List Token}
    {params : List Param} {value : Option ValueType} (hname : name.kind = .identifier)
    (hcolon : colon.kind = .colon) (hparen : paren.kind = .openParen)
    (hparams : Params inside params) (hclose : close.kind = .closeParen)
    (hcolon' : colon'.kind = .colon) (htypes : ReturnType types value)
    (hopener : opener.kind = .openBrace) :
    ∀ t ∈ name :: colon :: paren :: (inside ++ close :: colon' :: (types ++ [opener])),
      t.kind ∈ [Kind.comma, .semicolon, .identifier, .colon, .stringType, .stringArrayType,
        .openParen, .closeParen, .openBrace] := by
  simp only [List.forall_mem_cons, List.forall_mem_append]
  refine ⟨by rw [hname]; decide, by rw [hcolon]; decide, by rw [hparen]; decide, fun t ht => ?_,
    by rw [hclose]; decide, by rw [hcolon']; decide, fun t ht => ?_, by rw [hopener]; decide, nofun⟩
  · exact List.mem_append_left [Kind.openParen, .closeParen, .openBrace]
      (params_kind_mem hparams t ht)
  · obtain ⟨value', hvalue⟩ : ∃ value', TypeKind t.kind value' := by
      cases htypes with
      | none => cases ht
      | some hkind =>
        obtain rfl := List.mem_singleton.mp ht
        exact ⟨_, hkind⟩
    generalize t.kind = kind at hvalue ⊢
    cases hvalue <;> decide

/-- What the pattern of functions covers is a function statement if its parts can be read. -/
theorem functionStatement_of_readDeclaration {Body : List Token → List Node → Prop}
    {span rest : List Token} {declaration : Declaration} {nodes : List Node}
    (hcovers : functionPattern.Covers span rest) (hread : readDeclaration span = .ok declaration)
    (hbody : Body declaration.body nodes) :
    FunctionStatement Body span (.function declaration.signature nodes) ∧ Ended rest := by
  obtain ⟨name, colon, paren, inside, close, colon', declared, opener, body, last, ends, rfl, hname,
    hcolon, hparen, hinside, hclose, hcolon', hdeclared, hopener, hbalanced, hlast, hends, hrest⟩ :=
    covers_functionPattern.mp hcovers
  rw [readDeclaration_eq hname hcolon hparen hinside hclose hcolon' hdeclared hopener hbalanced
    hlast] at hread
  obtain ⟨params, hparams, hread⟩ := bind_eq_ok_iff.mp hread
  obtain ⟨value, hvalue, hread⟩ := bind_eq_ok_iff.mp hread
  cases hread
  exact ⟨.intro hname hcolon hparen (readParams_eq_ok_iff.mp hparams) hclose hcolon'
    (readReturnType_eq_ok_iff.mp hvalue) hopener hbalanced hbody hlast hends, hrest⟩

theorem functionStatement_iff (b : Builder) {span rest : List Token} {node : Node} :
    functionPattern.Covers span rest ∧ (b.buildFunction span).result = .ok node ↔
      FunctionStatement b.Body span node ∧ Ended rest := by
  rw [result_buildFunction_eq_ok_iff]
  constructor
  · rintro ⟨hcovers, declaration, nodes, hread, hnodes, rfl⟩
    exact functionStatement_of_readDeclaration hcovers hread hnodes
  · rintro ⟨hs, hrest⟩
    cases hs with
    | @intro name _ _ _ _ opener _ _ _ body _ params value nodes hname hcolon hparen hparams hclose
        hcolon' hvalue hopener hbody hnodes hlast hends =>
      have hinside := params_kinds hparams
      have hdeclared := returnType_types hvalue
      refine ⟨covers_functionPattern.mpr ⟨_, _, _, _, _, _, _, _, _, _, _, rfl, hname, hcolon,
        hparen, hinside, hclose, hcolon', hdeclared, hopener, hbody, hlast, hends, hrest⟩,
        ⟨⟨name.text, params, value, name.position⟩, opener, body⟩, nodes, ?_, hnodes, rfl⟩
      rw [readDeclaration_eq hname hcolon hparen hinside hclose hcolon' hdeclared hopener hbody
        hlast, readParams_eq_ok_iff.mpr hparams, readReturnType_eq_ok_iff.mpr hvalue]
      rfl

theorem function_reads (b : Builder) :
    Rule.Reads ⟨"function", functionPattern, b.buildFunction⟩ .identifier
      (FunctionStatement b.Body) :=
  ⟨fun _ => matchLength_sequence_exact, fun _ _ _ => functionStatement_iff b⟩

/-! ## The two scopes -/

theorem body_steps : Steps Rule.body InnerStatement :=
  steps_cons Rule.invocation_reads (steps_singleton Rule.comment_reads) fun _ _ h =>
    Rule.comment_reads.head_ne (by decide) h

theorem rules_steps {b : Builder} (hscope : b.scope = .topLevel) :
    Steps b.rules (OuterStatement b.Body) := by
  have hfunction := steps_singleton b.function_reads
  have hcomment := steps_cons Rule.comment_reads hfunction fun _ _ h =>
    b.function_reads.head_ne (by decide) h
  have hall := steps_cons Rule.importing_reads hcomment fun span node h => by
    rcases h with h | h
    · exact Rule.comment_reads.head_ne (by decide) h
    · exact b.function_reads.head_ne (by decide) h
  rw [rules, hscope]
  exact hall

theorem inner_terminated : Terminated InnerStatement where
  head := by
    rintro span node (h | h)
    · exact Rule.invocation_reads.head_ne (by decide) h
    · exact Rule.comment_reads.head_ne (by decide) h
  extend := by
    rintro span node ends (⟨hmark, hname, hopener, hinside, hlast, hends⟩ | ⟨hkind, hends⟩) hmore
    · have := InvocationStatement.intro hmark hname hopener hinside hlast
        (semicolons_append.mpr ⟨hends, hmore⟩)
      exact Or.inl (by simpa using this)
    · exact Or.inr (.intro hkind (semicolons_append.mpr ⟨hends, hmore⟩))

theorem outer_terminated (b : Builder) : Terminated (OuterStatement b.Body) where
  head := by
    rintro span node (h | h | h)
    · exact Rule.importing_reads.head_ne (by decide) h
    · exact Rule.comment_reads.head_ne (by decide) h
    · exact b.function_reads.head_ne (by decide) h
  extend := by
    rintro span node ends (h | h | h) hmore
    · rcases h with ⟨hkeyword, hname, hne, hends⟩ | ⟨hkeyword, hname, hmark, hother, hne, hends⟩
      · exact Or.inl (.plain hkeyword hname (by simp [hne])
          (semicolons_append.mpr ⟨hends, hmore⟩))
      · exact Or.inl (.aliased hkeyword hname hmark hother (by simp [hne])
          (semicolons_append.mpr ⟨hends, hmore⟩))
    · obtain ⟨hkind, hends⟩ := h
      exact Or.inr (Or.inl (.intro hkind (semicolons_append.mpr ⟨hends, hmore⟩)))
    · obtain ⟨hname, hcolon, hparen, hparams, hclose, hcolon', hvalue, hopener, hbody, hnodes,
        hlast, hends⟩ := h
      have := FunctionStatement.intro hname hcolon hparen hparams hclose hcolon' hvalue hopener
        hbody hnodes hlast (semicolons_append.mpr ⟨hends, hmore⟩)
      exact Or.inr (Or.inr (by simpa using this))

/-- A strict builder with room for one level reads bodies as sequences of statements. -/
theorem body_iff_statements {b : Builder} (hstrict : b.options.lenient = false)
    (hdepth : b.depth + 1 ≤ b.options.maxDepth) (body : List Token) (nodes : List Node) :
    b.Body body nodes ↔ Statements InnerStatement body nodes := by
  rw [Body, hstrict, result_nodesBy_eq_ok_iff body_steps inner_terminated]
  exact and_iff_right hdepth

/-- A strict builder accepts exactly the derivable programs and builds what is derived. -/
theorem result_build_eq_ok_iff_derives {b : Builder} (hscope : b.scope = .topLevel)
    (hstrict : b.options.lenient = false) (hdepth : b.depth + 1 ≤ b.options.maxDepth)
    {ts : List Token} {program : Program} :
    (b.build ts).result = .ok program ↔ Derives ts program.children := by
  have hbody : b.Body = Statements InnerStatement := by
    funext body nodes
    exact propext (body_iff_statements hstrict hdepth body nodes)
  rw [build, result_buildBy, hstrict, map_eq_ok_iff, Derives, ← hbody]
  simp only [result_nodesBy_eq_ok_iff (rules_steps hscope) (outer_terminated b)]
  constructor
  · rintro ⟨nodes, h, rfl⟩
    exact h
  · intro h
    exact ⟨_, h, rfl⟩

end Builder

end CheckedScript
