import Mathlib.Data.List.Forall2
import CheckedScript.Proofs.Building

/-!
Lenient building extends strict building. Run side by side on the same tokens, the two do the same
up to the first token that starts no statement, at top level or in a body: there the strict builder
fails and the lenient one warns. What a lenient builder takes is made of items, which are empty
statements, skipped tokens and statements, and it warns once for each token that it skips.

Main results:
* `Builder.relaxed_nodesBy`: how long the two do the same.
* `Builder.lenient_extends_strict`: what a lenient builder takes, and when it warns.
-/

namespace CheckedScript

open Grammar

namespace Run

variable {α β : Type}

/-! ## Warnings -/

/-- The entries of the log that warn. -/
def warnings (x : Run α) : List Log.Entry := x.log.filter fun entry => entry.level = .warn

theorem bind_of_ok {x : Run α} {a : α} (h : x.result = .ok a) (f : α → Run β) :
    x >>= f = ⟨x.log ++ (f a).log, (f a).result⟩ := by
  show bind x f = _
  unfold bind
  rw [h]

theorem bind_of_error {x : Run α} {e : CompileError} (h : x.result = .error e)
    (f : α → Run β) : x >>= f = ⟨x.log, .error e⟩ := by
  show bind x f = _
  unfold bind
  rw [h]

theorem warnings_bind_of_ok {x : Run α} {a : α} (h : x.result = .ok a) (f : α → Run β) :
    (x >>= f).warnings = x.warnings ++ (f a).warnings := by
  rw [bind_of_ok h]
  exact List.filter_append ..

theorem warnings_bind_ne_nil {x : Run α} (h : x.warnings ≠ []) (f : α → Run β) :
    (x >>= f).warnings ≠ [] := by
  cases hx : x.result with
  | error e =>
    rw [bind_of_error hx]
    exact h
  | ok a =>
    rw [warnings_bind_of_ok hx]
    exact List.append_ne_nil_of_left_ne_nil h _

theorem warnings_report_of_ne {level : Log.Level} (h : level ≠ .warn) (origin : Log.Origin)
    (message : String) : (report level origin message).warnings = [] := by
  simp [warnings, report, h]

theorem warnings_report_warn (origin : Log.Origin) (message : String) :
    (report .warn origin message).warnings ≠ [] := List.cons_ne_nil _ _

/-- The run ends well, with this value and these warnings. -/
def Gives (x : Run α) (a : α) (warned : List Log.Entry) : Prop :=
  x.result = .ok a ∧ x.warnings = warned

theorem gives_bind_iff {x : Run α} {f : α → Run β} {b : β} {warned : List Log.Entry} :
    (x >>= f).Gives b warned ↔ ∃ a earlier later, x.Gives a earlier ∧ (f a).Gives b later ∧
      warned = earlier ++ later := by
  constructor
  · rintro ⟨hresult, rfl⟩
    obtain ⟨a, ha, hb⟩ := result_bind_eq_ok_iff.mp hresult
    exact ⟨a, _, _, ⟨ha, rfl⟩, ⟨hb, rfl⟩, warnings_bind_of_ok ha f⟩
  · rintro ⟨a, _, _, ⟨ha, rfl⟩, ⟨hb, rfl⟩, rfl⟩
    exact ⟨result_bind_eq_ok_iff.mpr ⟨a, ha, hb⟩, warnings_bind_of_ok ha f⟩

theorem gives_pure_iff {a b : α} {warned : List Log.Entry} :
    (pure a : Run α).Gives b warned ↔ a = b ∧ warned = [] := by
  constructor
  · rintro ⟨hresult, rfl⟩
    cases hresult
    exact ⟨rfl, rfl⟩
  · rintro ⟨rfl, rfl⟩
    exact ⟨rfl, rfl⟩

theorem gives_ofExcept_iff {r : Except CompileError α} {a : α} {warned : List Log.Entry} :
    (ofExcept r).Gives a warned ↔ r = .ok a ∧ warned = [] := by
  constructor
  · rintro ⟨hresult, rfl⟩
    exact ⟨hresult, rfl⟩
  · rintro ⟨hresult, rfl⟩
    exact ⟨hresult, rfl⟩

/-- A report that does not warn changes nothing here. -/
theorem gives_report_bind_iff {level : Log.Level} {origin : Log.Origin} {message : String}
    {f : Unit → Run β} {b : β} {warned : List Log.Entry} (hlevel : level ≠ .warn) :
    (report level origin message >>= f).Gives b warned ↔ (f ()).Gives b warned := by
  rw [Gives, Gives, warnings_bind_of_ok rfl, warnings_report_of_ne hlevel, result_bind]
  rfl

/-! ## Runs side by side -/

/-- A strict and a lenient run that are the same and do not warn, unless the strict one fails where
the lenient one warns. -/
def Relaxed (strict lenient : Run α) : Prop :=
  lenient = strict ∧ strict.warnings = [] ∨
    (∃ e, strict.result = .error e) ∧ lenient.warnings ≠ []

theorem Relaxed.refl {x : Run α} (h : x.warnings = []) : Relaxed x x := .inl ⟨rfl, h⟩

/-- The relation passes through sequences: what comes first decides if it differs. -/
theorem Relaxed.bind {x y : Run α} {f g : α → Run β} (h : Relaxed x y)
    (hrest : ∀ a, Relaxed (f a) (g a)) : Relaxed (x >>= f) (y >>= g) := by
  obtain ⟨rfl, hquiet⟩ | ⟨⟨e, he⟩, hwarned⟩ := h
  · cases hresult : y.result with
    | error e =>
      rw [bind_of_error hresult, bind_of_error hresult]
      exact .refl hquiet
    | ok a =>
      obtain ⟨hsame, hquiet'⟩ | ⟨⟨e, he⟩, hwarned⟩ := hrest a
      · refine .inl ⟨?_, ?_⟩
        · rw [bind_of_ok hresult, bind_of_ok hresult, hsame]
        · rw [warnings_bind_of_ok hresult, hquiet, hquiet', List.append_nil]
      · refine .inr ⟨⟨e, ?_⟩, ?_⟩
        · rw [bind_of_ok hresult, he]
        · rw [warnings_bind_of_ok hresult]
          exact List.append_ne_nil_of_right_ne_nil _ hwarned
  · refine .inr ⟨⟨e, ?_⟩, warnings_bind_ne_nil hwarned g⟩
    rw [bind_of_error he]

/-- The strict run succeeds exactly where the lenient one does without a warning. -/
theorem Relaxed.ok_iff {strict lenient : Run α} (h : Relaxed strict lenient) {a : α} :
    strict.result = .ok a ↔ lenient.result = .ok a ∧ lenient.warnings = [] := by
  obtain ⟨rfl, hquiet⟩ | ⟨⟨e, he⟩, hwarned⟩ := h
  · exact (and_iff_left hquiet).symm
  · constructor
    · intro hok
      rw [he] at hok
      cases hok
    · intro hok
      exact absurd hok.2 hwarned

theorem Relaxed.error {strict lenient : Run α} (h : Relaxed strict lenient) {e : CompileError}
    (he : lenient.result = .error e) : ∃ e', strict.result = .error e' := by
  obtain ⟨rfl, -⟩ | ⟨hstrict, -⟩ := h
  · exact ⟨e, he⟩
  · exact hstrict

end Run

/-- Two rules for the same statements whose constructors run side by side. -/
structure Rule.Relaxed (strict lenient : Rule) : Prop where
  name : lenient.name = strict.name
  pattern : lenient.pattern = strict.pattern
  build : ∀ ts, Run.Relaxed (strict.build ts) (lenient.build ts)

namespace Builder

theorem relaxed_stepBy {rules rules' : List Rule} (hrules : List.Forall₂ Rule.Relaxed rules rules')
    (offset : Nat) (ts : List Token) :
    Run.Relaxed (stepBy offset ts rules) (stepBy offset ts rules') := by
  induction hrules with
  | nil => exact .refl rfl
  | cons hrule _ ih =>
    rw [stepBy, stepBy, hrule.pattern, hrule.name]
    split
    · refine (Run.Relaxed.refl (Run.warnings_report_of_ne (by decide) _ _)).bind fun _ => ?_
      exact (hrule.build _).bind fun _ => .refl rfl
    · exact ih

/-- The two builders go the same way up to a token that starts no statement. -/
theorem relaxed_nodesBy {rules rules' : List Rule}
    (hrules : List.Forall₂ Rule.Relaxed rules rules') (scope : Scope) (offset : Nat)
    (ts : List Token) :
    Run.Relaxed (nodesBy scope false rules offset ts) (nodesBy scope true rules' offset ts) := by
  induction hlen : ts.length using Nat.strongRecOn generalizing ts offset with
  | ind length ih =>
    subst hlen
    cases ts with
    | nil =>
      rw [nodesBy, nodesBy]
      exact .refl rfl
    | cons t ts =>
      rw [nodesBy, nodesBy]
      split
      · exact ih _ (by simp) _ _ rfl
      · refine (relaxed_stepBy hrules offset (t :: ts)).bind fun found => ?_
        rcases found with _ | ⟨node, n⟩
        · -- Here the two part: no rule matches.
          exact .inr ⟨⟨_, rfl⟩, Run.warnings_bind_ne_nil (Run.warnings_report_warn _ _) _⟩
        · have hshort : (ts.drop (n - 1)).length < (t :: ts).length := by
            simp only [List.length_drop, List.length_cons]
            omega
          exact (ih _ hshort _ _ rfl).bind fun _ => .refl rfl

/-- The builder in strict or in lenient mode. -/
def inMode (b : Builder) (lenient : Bool) : Builder :=
  { b with options := { b.options with lenient } }

theorem relaxed_buildBy {rules rules' : List Rule}
    (hrules : List.Forall₂ Rule.Relaxed rules rules') (b : Builder) (ts : List Token) :
    Run.Relaxed ((b.inMode false).buildBy rules ts) ((b.inMode true).buildBy rules' ts) := by
  refine (relaxed_nodesBy hrules b.scope 0 ts).bind fun nodes => ?_
  exact (Run.Relaxed.refl (Run.warnings_report_of_ne (by decide) _ _)).bind fun _ => .refl rfl

theorem relaxed_importing : Rule.importing.Relaxed Rule.importing := ⟨rfl, rfl, fun _ => .refl rfl⟩

theorem relaxed_comment : Rule.comment.Relaxed Rule.comment := ⟨rfl, rfl, fun _ => .refl rfl⟩

theorem relaxed_body : List.Forall₂ Rule.Relaxed Rule.body Rule.body :=
  .cons ⟨rfl, rfl, fun _ => .refl rfl⟩ (.cons relaxed_comment .nil)

theorem relaxed_buildFunction (b : Builder) (ts : List Token) :
    Run.Relaxed ((b.inMode false).buildFunction ts) ((b.inMode true).buildFunction ts) := by
  refine (Run.Relaxed.refl rfl).bind fun declaration => ?_
  by_cases hdepth : b.depth + 1 ≤ b.options.maxDepth
  · have hnested : ∀ lenient, (b.inMode lenient).nested .functionBody declaration.opener =
        .ok (({ b with scope := .functionBody, depth := b.depth + 1 } : Builder).inMode lenient) :=
      fun _ => if_pos hdepth
    rw [hnested, hnested]
    exact (relaxed_buildBy relaxed_body _ _).bind fun _ => .refl rfl
  · have hnested : ∀ lenient, (b.inMode lenient).nested .functionBody declaration.opener =
        .error (.nestingTooDeep b.options.maxDepth (some declaration.opener.position)) :=
      fun _ => if_neg hdepth
    rw [hnested, hnested]
    exact .refl rfl

theorem relaxed_build (b : Builder) (ts : List Token) :
    Run.Relaxed ((b.inMode false).build ts) ((b.inMode true).build ts) := by
  refine relaxed_buildBy ?_ b ts
  obtain ⟨scope, options, depth⟩ := b
  cases scope with
  | topLevel =>
    exact .cons relaxed_importing (.cons relaxed_comment
      (.cons ⟨rfl, rfl, relaxed_buildFunction _⟩ .nil))
  | functionBody => exact relaxed_body

end Builder

/-! ## What becomes of the tokens -/

/-- What a builder makes of a few tokens in a row. -/
inductive Item
  /-- A semicolon that belongs to no statement. -/
  | empty (t : Token)
  /-- A token that starts no statement. -/
  | skipped (t : Token) (fault : SourceFault)
  /-- A statement, with the items of its body. -/
  | statement (span : List Token) (node : Node) (body : List Item)

namespace Item

def tokens : Item → List Token
  | empty t => [t]
  | skipped t _ => [t]
  | statement span _ _ => span

def node? : Item → Option Node
  | empty _ => none
  | skipped _ _ => none
  | statement _ node _ => some node

/-- The warning for a token that is skipped. -/
def skipWarning (t : Token) (fault : SourceFault) : Log.Entry :=
  ⟨.warn, .building, t.position.text ++ ": skipping `" ++ t.text ++ "`: " ++ fault.message⟩

mutual

/-- The warnings for an item, or for the items of its body. -/
def warnings : Item → List Log.Entry
  | empty _ => []
  | skipped t fault => [skipWarning t fault]
  | statement _ _ body => warningsAmong body

def warningsAmong : List Item → List Log.Entry
  | [] => []
  | item :: items => item.warnings ++ warningsAmong items

end

theorem warningsAmong_eq (items : List Item) : warningsAmong items = items.flatMap warnings := by
  induction items with
  | nil => rfl
  | cons item items ih => rw [warningsAmong, ih, List.flatMap_cons]

/-- The statements of a scope; only functions have a body. -/
inductive States : Scope → List Token → Node → List Item → Prop
  | importing {span : List Token} {node : Node} (h : ImportStatement span node) :
      States .topLevel span node []
  | function {span : List Token} {node : Node} {body : List Item}
      (h : FunctionStatement
        (fun ts nodes => body.flatMap tokens = ts ∧ body.filterMap node? = nodes) span node) :
      States .topLevel span node body
  | invocation {span : List Token} {node : Node} (h : InvocationStatement span node) :
      States .functionBody span node []
  | comment {scope : Scope} {span : List Token} {node : Node} (h : CommentStatement span node) :
      States scope span node []

end Item

/-- The patterns that are tried in a scope. -/
def Scope.patterns : Scope → List Pattern
  | topLevel => [importPattern, commentPattern, functionPattern]
  | functionBody => [invocationPattern, commentPattern]

/-- Items one after the other, each right for what follows it: a token is skipped only where no
pattern matches, and a statement takes the semicolons behind it. -/
inductive Itemized : Scope → List Item → Prop
  | nil {scope : Scope} : Itemized scope []
  | empty {scope : Scope} {t : Token} {items : List Item} (kind : t.kind = .semicolon)
      (rest : Itemized scope items) : Itemized scope (.empty t :: items)
  | skipped {scope : Scope} {t : Token} {items : List Item} (kind : t.kind ≠ .semicolon)
      (unmatched : ∀ pattern ∈ scope.patterns, ∀ n,
        pattern.matchLength (t :: items.flatMap Item.tokens) ≠ some (n + 1))
      (rest : Itemized scope items) :
      Itemized scope (.skipped t (scope.diagnose (t :: items.flatMap Item.tokens)) :: items)
  | statement {scope : Scope} {span : List Token} {node : Node} {body items : List Item}
      (states : Item.States scope span node body) (ended : Ended (items.flatMap Item.tokens))
      (inside : Itemized .functionBody body) (rest : Itemized scope items) :
      Itemized scope (.statement span node body :: items)

/-- The items account for the tokens, the nodes and the warnings of a builder. -/
structure Accounts (scope : Scope) (items : List Item) (ts : List Token) (nodes : List Node)
    (warned : List Log.Entry) : Prop where
  itemized : Itemized scope items
  tokens : items.flatMap Item.tokens = ts
  nodes : items.filterMap Item.node? = nodes
  warned : items.flatMap Item.warnings = warned

/-- Where the pattern of a rule covers tokens, what the rule makes of them is a statement. -/
def Rule.Itemizes (scope : Scope) (rule : Rule) : Prop :=
  ∀ span rest node warned, rule.pattern.Covers span rest → (rule.build span).Gives node warned →
    ∃ body, Item.States scope span node body ∧ Itemized .functionBody body ∧
      body.flatMap Item.warnings = warned ∧ Ended rest

namespace Builder

theorem stepBy_eq_pure_none {rules : List Rule} {ts : List Token}
    (h : ∀ rule ∈ rules, ∀ n, rule.pattern.matchLength ts ≠ some (n + 1)) (offset : Nat) :
    stepBy offset ts rules = pure none := by
  induction rules with
  | nil => rfl
  | cons rule rules ih =>
    obtain ⟨hrule, hrules⟩ := List.forall_mem_cons.mp h
    rw [stepBy]
    split
    · next n hn => exact absurd hn (hrule n)
    · exact ih hrules

theorem exists_rule_of_stepBy {rules : List Rule} {offset : Nat} {ts : List Token} {node : Node}
    {n : Nat} {warned : List Log.Entry}
    (h : (stepBy offset ts rules).Gives (some (node, n)) warned) :
    ∃ rule ∈ rules, ∃ span rest, ts = span ++ rest ∧ span.length = n ∧ span ≠ [] ∧
      rule.pattern.Covers span rest ∧ (rule.build span).Gives node warned := by
  induction rules with
  | nil => cases h.1
  | cons rule rules ih =>
    rw [stepBy] at h
    split at h
    · next m hm =>
      rw [Run.gives_report_bind_iff (by decide)] at h
      obtain ⟨made, earlier, later, hbuild, hpure, rfl⟩ := Run.gives_bind_iff.mp h
      obtain ⟨heq, rfl⟩ := Run.gives_pure_iff.mp hpure
      cases heq
      obtain ⟨span, rest, rfl, hlength, hcovers⟩ := Pattern.matchLength_eq_some_iff.mp hm
      rw [← Nat.succ_eq_add_one, ← hlength, List.take_left] at hbuild
      refine ⟨rule, by simp, span, rest, rfl, hlength, ?_, hcovers, by simpa using hbuild⟩
      exact List.ne_nil_of_length_eq_add_one hlength
    · obtain ⟨found, hfound, hspan⟩ := ih h
      exact ⟨found, List.mem_cons_of_mem _ hfound, hspan⟩

/-- What a lenient builder can do with the first token: take it as an empty statement, skip it with
a warning or take the tokens that a rule covers. -/
theorem cases_of_nodesBy {scope : Scope} {rules : List Rule} {offset : Nat} {t : Token}
    {ts : List Token} {nodes : List Node} {warned : List Log.Entry}
    (h : (nodesBy scope true rules offset (t :: ts)).Gives nodes warned) :
    (t.kind = .semicolon ∧ (nodesBy scope true rules (offset + 1) ts).Gives nodes warned) ∨
    (t.kind ≠ .semicolon ∧
      (∀ rule ∈ rules, ∀ n, rule.pattern.matchLength (t :: ts) ≠ some (n + 1)) ∧
      ∃ later, (nodesBy scope true rules (offset + 1) ts).Gives nodes later ∧
        warned = Item.skipWarning t (scope.diagnose (t :: ts)) :: later) ∨
    ∃ rule ∈ rules, ∃ span rest node others earlier later,
      ts = span ++ rest ∧ rule.pattern.Covers (t :: span) rest ∧
      (rule.build (t :: span)).Gives node earlier ∧
      (nodesBy scope true rules (offset + (span.length + 1)) rest).Gives others later ∧
      nodes = node :: others ∧ warned = earlier ++ later := by
  rw [nodesBy] at h
  split at h
  case isTrue ht => exact .inl ⟨ht, h⟩
  case isFalse ht =>
    obtain ⟨found, earlier, later, hstep, hrest, rfl⟩ := Run.gives_bind_iff.mp h
    rcases found with _ | ⟨node, n⟩
    · have hnone := stepBy_eq_none_iff.mp hstep.1
      rw [stepBy_eq_pure_none hnone] at hstep
      obtain ⟨-, rfl⟩ := Run.gives_pure_iff.mp hstep
      have hskip : (Run.report .warn .building _ >>=
          fun _ => nodesBy scope true rules (offset + 1) ts).Gives nodes later := hrest
      obtain ⟨_, first, others, hreport, hothers, rfl⟩ := Run.gives_bind_iff.mp hskip
      exact .inr (.inl ⟨ht, hnone, others, hothers, by rw [← hreport.2]; rfl⟩)
    · obtain ⟨rule, hrule, span, rest, hts, rfl, hne, hcovers, hbuild⟩ :=
        exists_rule_of_stepBy hstep
      obtain ⟨others, first, second, hnodes, hpure, rfl⟩ := Run.gives_bind_iff.mp hrest
      obtain ⟨rfl, rfl⟩ := Run.gives_pure_iff.mp hpure
      obtain ⟨u, span, rfl⟩ := List.exists_cons_of_ne_nil hne
      rw [List.cons_append] at hts
      obtain ⟨rfl, rfl⟩ := List.cons.inj hts
      rw [List.length_cons, Nat.add_sub_cancel, List.drop_left] at hnodes
      exact .inr (.inr ⟨rule, hrule, span, rest, node, others, earlier, first, rfl, hcovers, hbuild,
        hnodes, rfl, by rw [List.append_nil]⟩)

/-- What a lenient builder takes is accounted for, token by token and warning by warning. -/
theorem accounts_of_nodesBy {scope : Scope} {rules : List Rule}
    (hpatterns : rules.map (·.pattern) = scope.patterns)
    (hrules : ∀ rule ∈ rules, rule.Itemizes scope) {offset : Nat} {ts : List Token}
    {nodes : List Node} {warned : List Log.Entry}
    (h : (nodesBy scope true rules offset ts).Gives nodes warned) :
    ∃ items, Accounts scope items ts nodes warned := by
  induction hlen : ts.length using Nat.strongRecOn generalizing ts offset nodes warned with
  | ind length ih =>
    subst hlen
    cases ts with
    | nil =>
      rw [nodesBy] at h
      obtain ⟨rfl, rfl⟩ := Run.gives_pure_iff.mp h
      exact ⟨[], .nil, rfl, rfl, rfl⟩
    | cons t ts =>
      obtain ⟨ht, hrest⟩ | ⟨ht, hnone, later, hrest, rfl⟩ | ⟨rule, hrule, span, rest, node, others,
        earlier, later, rfl, hcovers, hbuild, hrest, rfl, rfl⟩ := cases_of_nodesBy h
      · obtain ⟨items, hitems, rfl, rfl, rfl⟩ := ih _ (by simp) hrest rfl
        exact ⟨.empty t :: items, .empty ht hitems, rfl, rfl, rfl⟩
      · obtain ⟨items, hitems, rfl, rfl, rfl⟩ := ih _ (by simp) hrest rfl
        refine ⟨.skipped t _ :: items, .skipped ht ?_ hitems, rfl, rfl, rfl⟩
        intro pattern hpattern
        rw [← hpatterns] at hpattern
        obtain ⟨rule, hrule, rfl⟩ := List.mem_map.mp hpattern
        exact hnone rule hrule
      · obtain ⟨body, hstates, hbody, rfl, hended⟩ := hrules rule hrule _ rest node _ hcovers hbuild
        have hshort : rest.length < (t :: (span ++ rest)).length := by
          simp only [List.length_cons, List.length_append]
          omega
        obtain ⟨items, hitems, rfl, rfl, rfl⟩ := ih _ hshort hrest rfl
        refine ⟨.statement (t :: span) node body :: items,
          .statement hstates hended hbody hitems, rfl, rfl, ?_⟩
        rw [List.flatMap_cons, Item.warnings, Item.warningsAmong_eq]

/-! ## The rules -/

/-- A rule that reads statements without a body. -/
theorem itemizes_of_reads {scope : Scope} {rule : Rule} {kind : Token.Kind}
    {Statement : List Token → Node → Prop} (hreads : rule.Reads kind Statement)
    (hquiet : ∀ span, (rule.build span).warnings = [])
    (hstates : ∀ span node, Statement span node → Item.States scope span node []) :
    rule.Itemizes scope := by
  intro span rest node warned hcovers hbuild
  obtain ⟨hs, hended⟩ := (hreads.iff span rest node).mp ⟨hcovers, hbuild.1⟩
  exact ⟨[], hstates span node hs, .nil, (hquiet span).symm.trans hbuild.2, hended⟩

theorem itemizes_importing : Rule.importing.Itemizes .topLevel :=
  itemizes_of_reads Rule.importing_reads (fun _ => rfl) fun _ _ => .importing

theorem itemizes_comment (scope : Scope) : Rule.comment.Itemizes scope :=
  itemizes_of_reads Rule.comment_reads (fun _ => rfl) fun _ _ => .comment

theorem itemizes_invocation : Rule.invocation.Itemizes .functionBody :=
  itemizes_of_reads Rule.invocation_reads (fun _ => rfl) fun _ _ => .invocation

theorem accounts_of_body {offset : Nat} {ts : List Token} {nodes : List Node}
    {warned : List Log.Entry}
    (h : (nodesBy .functionBody true Rule.body offset ts).Gives nodes warned) :
    ∃ items, Accounts .functionBody items ts nodes warned := by
  refine accounts_of_nodesBy rfl ?_ h
  simp [Rule.body, itemizes_invocation, itemizes_comment]

theorem gives_of_buildBy {b : Builder} {rules : List Rule} {ts : List Token} {program : Program}
    {warned : List Log.Entry} (h : (b.buildBy rules ts).Gives program warned) :
    (nodesBy b.scope b.options.lenient rules 0 ts).Gives program.children warned := by
  obtain ⟨nodes, earlier, later, hnodes, hrest, rfl⟩ := Run.gives_bind_iff.mp h
  rw [Run.gives_report_bind_iff (by decide)] at hrest
  obtain ⟨rfl, rfl⟩ := Run.gives_pure_iff.mp hrest
  rwa [List.append_nil]

theorem itemizes_function {b : Builder} (hlenient : b.options.lenient = true) :
    Rule.Itemizes .topLevel ⟨"function", functionPattern, b.buildFunction⟩ := by
  intro span rest node warned hcovers hbuild
  obtain ⟨declaration, _, _, hdeclaration, hinside, rfl⟩ := Run.gives_bind_iff.mp hbuild
  obtain ⟨hread, rfl⟩ := Run.gives_ofExcept_iff.mp hdeclaration
  obtain ⟨inner, _, _, hinner, hprogram, rfl⟩ := Run.gives_bind_iff.mp hinside
  obtain ⟨hnested, rfl⟩ := Run.gives_ofExcept_iff.mp hinner
  obtain ⟨program, inside, _, hbuilt, hpure, rfl⟩ := Run.gives_bind_iff.mp hprogram
  obtain ⟨rfl, rfl⟩ := Run.gives_pure_iff.mp hpure
  have hbody := gives_of_buildBy hbuilt
  unfold nested at hnested
  split at hnested
  case isFalse => cases hnested
  case isTrue =>
    cases hnested
    rw [hlenient] at hbody
    obtain ⟨items, hitems, htokens, hnodes, rfl⟩ := accounts_of_body hbody
    obtain ⟨hstatement, hended⟩ := @functionStatement_of_readDeclaration
      (fun ts nodes => items.flatMap Item.tokens = ts ∧ items.filterMap Item.node? = nodes)
      span rest declaration program.children hcovers hread ⟨htokens, hnodes⟩
    exact ⟨items, .function hstatement, hitems, by simp, hended⟩

theorem patterns_rules (b : Builder) : b.rules.map (·.pattern) = b.scope.patterns := by
  unfold rules
  cases b.scope <;> rfl

theorem itemizes_rules {b : Builder} (hlenient : b.options.lenient = true) :
    ∀ rule ∈ b.rules, rule.Itemizes b.scope := by
  unfold rules
  cases b.scope with
  | topLevel => simp [itemizes_importing, itemizes_comment, itemizes_function hlenient]
  | functionBody => simp [Rule.body, itemizes_invocation, itemizes_comment]

/-- A strict builder builds what the lenient one builds without a warning, and fails where that
one fails. What the lenient one builds comes from items that use up its tokens: empty statements,
skipped tokens with a warning each, and statements, whose bodies are made of items again. -/
theorem lenient_extends_strict (b : Builder) (ts : List Token) :
    (∀ program, ((b.inMode false).build ts).result = .ok program ↔
      ((b.inMode true).build ts).result = .ok program ∧
        ((b.inMode true).build ts).warnings = []) ∧
    (∀ e, ((b.inMode true).build ts).result = .error e →
      ∃ e', ((b.inMode false).build ts).result = .error e') ∧
    ∀ program, ((b.inMode true).build ts).result = .ok program →
      ∃ items, Accounts b.scope items ts program.children ((b.inMode true).build ts).warnings := by
  have hrelaxed := b.relaxed_build ts
  refine ⟨fun program => hrelaxed.ok_iff, fun e => hrelaxed.error, fun program hprogram => ?_⟩
  have hgives : ((b.inMode true).build ts).Gives program _ := ⟨hprogram, rfl⟩
  exact accounts_of_nodesBy (patterns_rules (b.inMode true)) (itemizes_rules rfl)
    (gives_of_buildBy hgives)

end Builder

end CheckedScript
