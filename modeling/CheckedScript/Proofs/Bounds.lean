import CheckedScript.Proofs.Access
import CheckedScript.Proofs.Relocation

/-!
Reading by number. The readings of the grammar, and the builder of function bodies, cut their
tokens at numbers that they look up on their own: the parenthesis, the brace behind it, the end of
the block. Here they are read once more with accesses that can go wrong. On any tokens, matched by a
pattern or not, none does, and the outcome is the same.

Main result:
* `Indexed.rules_refine`: by number, the constructors of both scopes do the same.
-/

namespace CheckedScript

open Token (Kind)
open Grammar

/-- The rules of a scope, their functions built by `b`. -/
def Scope.rules (scope : Scope) (b : Builder) : List Rule :=
  match scope with
  | .topLevel =>
    [Rule.importing, Rule.comment, ⟨"function", functionPattern, b.buildFunction⟩]
  | .functionBody => Rule.body

theorem Builder.rules_eq (b : Builder) : b.rules = b.scope.rules b := by
  cases h : b.scope <;> simp only [Builder.rules, Scope.rules, h]

/-- A rule that matches nothing is passed over. -/
theorem Builder.pos_of_stepBy {offset n : Nat} {ts : List Token} {rules : List Rule} {node : Node}
    (h : (stepBy offset ts rules).result = .ok (some (node, n))) : 0 < n := by
  induction rules with
  | nil => cases h
  | cons rule rules ih =>
    rw [result_stepBy_cons] at h
    split at h
    · obtain ⟨_, -, heq⟩ := map_eq_ok_iff.mp h
      cases heq
      exact Nat.succ_pos _
    · exact ih h

namespace Grammar

/-- One parameter off the front. -/
theorem readParams_of_covers {name type : Token} {colons rest : List Token}
    (h : paramPattern.Covers (name :: (colons ++ [type])) rest) :
    readParams (name :: (colons ++ [type] ++ rest)) =
      (readType type).bind fun value => (readParams rest).map (⟨name.text, value⟩ :: ·) := by
  have hlength : (colons ++ [type]).length = (name :: (colons ++ [type])).length - 1 := rfl
  rw [readParams, ← List.cons_append, h]
  simp only [← hlength, List.take_left, List.drop_left]
  rw [List.getLast_cons (by simp), List.getLast_concat]
  cases readType type <;> rfl

theorem readParams_of_none {t : Token} {ts : List Token}
    (h : paramPattern.matchLength (t :: ts) = none) :
    readParams (t :: ts) =
      if t.kind = .comma ∨ t.kind = .semicolon then readParams ts
      else .error (faultAt t (.malformedParameter t.text)) := by
  rw [readParams, h]
  dsimp only
  split
  case h_1 hkind => rw [if_pos (.inl hkind)]
  case h_2 hkind => rw [if_pos (.inr hkind)]
  case h_3 hcomma hsemicolon => rw [if_neg (not_or.mpr ⟨hcomma, hsemicolon⟩)]

end Grammar

namespace Indexed

/-- A reading that uses no numbers. -/
def Reading.of {α : Type} (r : Except CompileError α) : Reading α := r.mapError .refused

section

variable {α β : Type}

theorem of_bind (x : Except CompileError α) (f : α → Except CompileError β) :
    Reading.of (x.bind f) = Reading.of x >>= fun a => Reading.of (f a) := by
  cases x <;> rfl

theorem of_map (x : Except CompileError α) (f : α → β) :
    Reading.of (x.map f) = Reading.of x >>= fun a => .ok (f a) := by
  cases x <;> rfl

end

def refuse {α : Type} (e : CompileError) : Reading α := .error (.refused e)

/-! ## Imports and commands -/

/-- The pairs of neighbours. -/
def pairs : List Token → List (List Token)
  | a :: b :: ts => [a, b] :: pairs (b :: ts)
  | _ => []

/-- The second token of each pair whose first is an `as`. -/
def aliases : List (List Token) → Reading (List Token)
  | [] => return []
  | pair :: rest => do
    let mark ← token pair 0
    if mark.kind = .asKeyword then
      let other ← token pair 1
      let others ← aliases rest
      return other :: others
    else aliases rest

def readImport : List Token → Reading Node
  | keyword :: name :: ts => do
    match ← aliases (pairs ts) with
    | [] => return .importing ⟨name.text, none, keyword.position⟩
    | [other] => return .importing ⟨name.text, some other.text, keyword.position⟩
    | _ :: extra :: _ => refuse (faultAt extra (.secondAlias name.text))
  | ts => refuse (missing "import name" ts)

def readCommand : List Token → Reading Command
  | name :: opener :: ts =>
    if opener.kind = .openSquare then
      let inside := ts.takeWhile fun t => t.kind ≠ .closeSquare
      let args := inside.filter fun t => !separatesArgs t.kind
      return ⟨name.text, args.map (·.text), name.position⟩
    else do
      let rest ← onward (name :: opener :: ts) 1
      refuse (missing "`[`" rest)
  | ts => refuse (missing "command name" ts)

def readInvocation (ts : List Token) : Reading Node := do
  let command ← readCommand ((slice? ts 1 ts.length).getD [])
  return .invocation command

theorem aliases_pairs (ts : List Token) : aliases (pairs ts) = .ok (Grammar.aliases ts) := by
  fun_induction Grammar.aliases ts with
  | case1 a b ts hmark ih =>
    rw [pairs, aliases, token_eq rfl, ok_bind, if_pos hmark, token_eq rfl, ok_bind, ih]
    rfl
  | case2 a b ts hmark ih =>
    rw [pairs, aliases, token_eq rfl, ok_bind, if_neg hmark, ih]
  | case3 ts hshort =>
    rcases ts with _ | ⟨a, _ | ⟨b, ts⟩⟩
    · rfl
    · rfl
    · exact absurd rfl (hshort a b ts)

theorem readImport_refines (ts : List Token) :
    readImport ts = .of (Grammar.readImport ts) := by
  rcases ts with _ | ⟨keyword, _ | ⟨name, ts⟩⟩
  · rfl
  · rfl
  · rw [readImport, aliases_pairs, ok_bind, Grammar.readImport]
    rcases Grammar.aliases ts with _ | ⟨other, _ | ⟨extra, others⟩⟩ <;> rfl

theorem readCommand_refines (ts : List Token) :
    readCommand ts = .of (Grammar.readCommand ts) := by
  rcases ts with _ | ⟨name, _ | ⟨opener, ts⟩⟩
  · rfl
  · rfl
  · rw [readCommand, Grammar.readCommand]
    split
    · rfl
    · rw [onward_eq (by simp)]
      rfl

/-- What there is from a number on, nothing if the number is too large. -/
theorem getD_slice?_onward (ts : List Token) (start : Nat) :
    (slice? ts start ts.length).getD [] = ts.drop start := by
  rw [slice?]
  split
  · rw [List.take_length, Option.getD_some]
  · next h => exact (List.drop_eq_nil_of_le (by omega)).symm

theorem readInvocation_refines (ts : List Token) :
    readInvocation ts = .of (Grammar.readInvocation ts) := by
  rw [readInvocation, getD_slice?_onward, List.drop_one, readCommand_refines,
    Grammar.readInvocation, of_map]
  rfl

/-! ## Parameters -/

/-- Reads the parameters from number `offset` on. -/
def readParams (ts : List Token) (offset : Nat) : Reading (List Param) :=
  if offset < ts.length then do
    let rest ← onward ts offset
    match ← matchLength paramPattern rest with
    | some n =>
      let span ← stretch rest 0 n
      match span.getLast? with
      | none => refuse (missing "parameter type" rest)
      | some last =>
        let name ← token span 0
        let type ← .of (readType last)
        if n = 0 then .error (.violated .stalled)
        else
          let params ← readParams ts (offset + n)
          return ⟨name.text, type⟩ :: params
    | none =>
      let t ← token rest 0
      if t.kind = .comma ∨ t.kind = .semicolon then readParams ts (offset + 1)
      else refuse (faultAt t (.malformedParameter t.text))
  else return []
termination_by ts.length - offset

/-- The tokens at and behind a number that is in range. -/
theorem exists_drop_eq_cons {ts : List Token} {offset : Nat} (h : offset < ts.length) :
    ∃ t us, ts[offset]? = some t ∧ ∀ k, ts.drop (offset + k) = (t :: us).drop k := by
  refine ⟨ts[offset], ts.drop (offset + 1), List.getElem?_eq_getElem h, fun k => ?_⟩
  rw [← List.drop_eq_getElem_cons h, List.drop_drop]

theorem readParams_refines (ts : List Token) (offset : Nat) :
    readParams ts offset = .of (Grammar.readParams (ts.drop offset)) := by
  induction hleft : ts.length - offset using Nat.strongRecOn generalizing offset with
  | ind left ih =>
    subst hleft
    rw [readParams]
    split
    case isFalse hge =>
      rw [List.drop_eq_nil_of_le (by omega), Grammar.readParams]
      rfl
    case isTrue hlt =>
      obtain ⟨t, us, -, hdrop⟩ := exists_drop_eq_cons hlt
      have hrest : ts.drop offset = t :: us := hdrop 0
      rw [onward_eq (Nat.le_of_lt hlt), ok_bind, matchLength_refines, ok_bind, hrest]
      cases hmatch : paramPattern.matchLength (t :: us) with
      | none =>
        have hnext : readParams ts (offset + 1) = .of (Grammar.readParams us) := by
          rw [ih _ (by omega) (offset + 1) rfl, hdrop]
          rfl
        rw [readParams_of_none hmatch]
        dsimp only
        rw [token_eq rfl, ok_bind]
        by_cases hkind : t.kind = .comma ∨ t.kind = .semicolon
        · rw [if_pos hkind, if_pos hkind, hnext]
        · rw [if_neg hkind, if_neg hkind]
          rfl
      | some n =>
        have hbound : n ≤ (t :: us).length := Pattern.matchLength_le _ _ _ hmatch
        obtain ⟨span, rest, hcut, rfl, hcovers⟩ := Pattern.matchLength_eq_some_iff.mp hmatch
        obtain ⟨name, colons, type, rfl, -⟩ := covers_paramPattern.mp hcovers
        rw [List.cons_append] at hcut
        obtain ⟨rfl, rfl⟩ := List.cons.inj hcut
        have hspan : (t :: (colons ++ [type] ++ rest)).take (t :: (colons ++ [type])).length =
            t :: (colons ++ [type]) := @List.take_left _ (t :: (colons ++ [type])) rest
        have hbehind : (t :: (colons ++ [type] ++ rest)).drop (t :: (colons ++ [type])).length =
            rest := @List.drop_left _ (t :: (colons ++ [type])) rest
        have hlast : (t :: (colons ++ [type])).getLast? = some type :=
          @List.getLast?_concat _ (t :: colons) type
        have hne : (t :: (colons ++ [type])).length ≠ 0 := Nat.succ_ne_zero _
        dsimp only
        rw [stretch_zero hbound, ok_bind, hspan, hlast]
        dsimp only
        rw [token_eq rfl, ok_bind, readParams_of_covers hcovers, of_bind]
        refine congrArg (Reading.of (readType type) >>= ·) (funext fun value => ?_)
        rw [if_neg hne, ih _ (by omega) _ rfl, hdrop, hbehind, of_map]
        rfl

/-! ## Functions -/

/-- Reads a declaration from number `close` on, where the parenthesis behind its parameters
stands. -/
def readBehind (name : Token) (params : List Param) (ts : List Token) (close : Nat) :
    Reading Declaration :=
  match (ts.drop close).findIdx? fun t => t.kind = .openBrace with
  | none => do
    let rest ← onward ts close
    refuse (missing "`\x7b`" rest)
  | some brace =>
    match slice? ts (close + 2) (brace + close) with
    | none => do
      let rest ← onward ts close
      refuse (missing "`:` before the function body" rest)
    | some declared => do
      let returnType ← .of (readReturnType name.text declared)
      let block ← onward ts (brace + close)
      match ← matchBlock .openBrace .closeBrace block with
      | none =>
        let opener ← token ts (brace + close)
        refuse (faultAt opener (.unclosedBody name.text))
      | some n =>
        let stop ← difference (brace + close + n) 1
        let body ← stretch ts (brace + close + 1) stop
        let opener ← token ts (brace + close)
        return ⟨⟨name.text, params, returnType, name.position⟩, opener, body⟩

def readDeclaration : List Token → Reading Declaration
  | [] => refuse (missing "function name" [])
  | name :: rest =>
    match (name :: rest).findIdx? fun t => t.kind = .closeParen with
    | none => refuse (missing "`)`" (name :: rest))
    | some close =>
      match slice? (name :: rest) 3 close with
      | none => refuse (missing "`(`" (name :: rest))
      | some inside => do
        let params ← readParams inside 0
        readBehind name params (name :: rest) close

theorem slice?_drop {ts : List Token} {offset : Nat} (h : offset ≤ ts.length) (start stop : Nat) :
    slice? (ts.drop offset) start stop = slice? ts (offset + start) (stop + offset) := by
  have hrange : (start ≤ stop ∧ stop ≤ (ts.drop offset).length) ↔
      (offset + start ≤ stop + offset ∧ stop + offset ≤ ts.length) := by
    rw [List.length_drop]
    omega
  rw [slice?, slice?, if_congr hrange _ rfl]
  rw [List.take_drop, List.drop_drop, Nat.add_comm offset stop]

/-- A body is at least the two braces long and inside the tokens, so it can be cut out. -/
theorem stretch_body {ts : List Token} {offset n : Nat} {opener : Token} {body : List Token}
    (hdrop : ∀ k, ts.drop (offset + k) = (opener :: body).drop k) (hlt : offset < ts.length)
    (hblock : Pattern.matchBlock .openBrace .closeBrace (opener :: body) = some n) :
    (difference (offset + n) 1 >>= fun stop => stretch ts (offset + 1) stop) =
      .ok (body.take (n - 2)) := by
  have hmatch : (Pattern.block .openBrace .closeBrace).matchLength (opener :: body) = some n := by
    rw [Pattern.matchLength, hblock]
  obtain ⟨span, rest, hcut, rfl, hcovers⟩ := Pattern.matchLength_eq_some_iff.mp hmatch
  obtain ⟨first, inside, last, rfl, -⟩ := (Pattern.covers_block (by decide)).mp hcovers
  have hlength : ts.length - offset = (opener :: body).length := by
    rw [← List.length_drop, ← List.drop_zero (l := opener :: body), ← hdrop 0]
    rfl
  have hbound := Pattern.matchBlock_le hblock
  simp only [List.length_cons, List.length_append, List.length_nil] at hbound hlength ⊢
  rw [difference_eq (by omega), ok_bind, stretch_eq (by omega) (by omega), List.drop_take, hdrop]
  exact congrArg (fun k => Except.ok (body.take k)) (by omega)

theorem readBehind_refines (name : Token) (params : List Param) {ts : List Token} {close : Nat}
    (hclose : close ≤ ts.length) :
    readBehind name params ts close = .of (Grammar.readBehind name params (ts.drop close)) := by
  rw [readBehind, Grammar.readBehind]
  cases hfind : (ts.drop close).findIdx? fun t => t.kind = .openBrace with
  | none =>
    rw [List.findIdx?_eq_none_iff_findIdx_eq] at hfind
    rw [hfind, List.drop_length, onward_eq hclose]
    rfl
  | some brace =>
    obtain ⟨hbrace, hfind⟩ := List.findIdx?_eq_some_iff_findIdx_eq.mp hfind
    rw [List.length_drop] at hbrace
    have hlt : brace + close < ts.length := by omega
    obtain ⟨opener, body, hopener, hdrop⟩ := exists_drop_eq_cons hlt
    have hblock : ts.drop (brace + close) = opener :: body := hdrop 0
    rw [hfind, List.drop_drop, Nat.add_comm close brace, hblock, slice?_drop hclose]
    dsimp only
    cases slice? ts (close + 2) (brace + close) with
    | none =>
      dsimp only
      rw [onward_eq hclose]
      rfl
    | some declared =>
      dsimp only
      rw [of_bind]
      refine congrArg (Reading.of (readReturnType name.text declared) >>= ·)
        (funext fun returnType => ?_)
      rw [onward_eq (Nat.le_of_lt hlt), ok_bind, hblock, matchBlock_refines, ok_bind]
      cases hmatch : Pattern.matchBlock .openBrace .closeBrace (opener :: body) with
      | none =>
        dsimp only
        rw [token_eq hopener]
        rfl
      | some n =>
        dsimp only
        rw [← bind_assoc, stretch_body hdrop hlt hmatch, ok_bind, token_eq hopener]
        rfl

theorem readDeclaration_refines (ts : List Token) :
    readDeclaration ts = .of (Grammar.readDeclaration ts) := by
  cases ts with
  | nil => rfl
  | cons name rest =>
    rw [readDeclaration, readDeclaration_cons]
    dsimp only
    cases hfind : (name :: rest).findIdx? fun t => t.kind = .closeParen with
    | none =>
      rw [List.findIdx?_eq_none_iff_findIdx_eq] at hfind
      rw [if_pos hfind]
      rfl
    | some close =>
      obtain ⟨hclose, hfind⟩ := List.findIdx?_eq_some_iff_findIdx_eq.mp hfind
      rw [hfind, if_neg (Nat.ne_of_lt hclose)]
      dsimp only
      cases slice? (name :: rest) 3 close with
      | none => rfl
      | some inside =>
        dsimp only
        rw [readParams_refines, List.drop_zero, of_bind]
        refine congrArg (Reading.of (Grammar.readParams inside) >>= ·)
          (funext fun params => ?_)
        exact readBehind_refines name params (Nat.le_of_lt hclose)

/-! ## Builders -/

/-- A statement form that works by number. -/
structure Rule where
  pattern : Pattern
  build : List Token → Reading Node

/-- A rule makes the same of any tokens, by number or not. -/
structure Rule.Refines (numbered : Indexed.Rule) (rule : CheckedScript.Rule) : Prop where
  pattern : numbered.pattern = rule.pattern
  build : ∀ ts, numbered.build ts = .of (rule.build ts).result

/-- The node of the first rule that matches at number `offset`, and the number behind it. -/
def step (ts : List Token) (offset : Nat) : List Indexed.Rule → Reading (Option (Node × Nat))
  | [] => return none
  | rule :: rules => do
    let rest := (slice? ts offset ts.length).getD []
    match ← matchLength rule.pattern rest with
    | some (n + 1) =>
      let span ← stretch rest 0 (n + 1)
      let node ← rule.build span
      return some (node, offset + (n + 1))
    | _ => step ts offset rules

/-- The nodes from number `offset` on. -/
def nodes (scope : Scope) (lenient : Bool) (rules : List Indexed.Rule) (ts : List Token)
    (offset : Nat) : Reading (List Node) :=
  if offset < ts.length then do
    let t ← token ts offset
    if t.kind = .semicolon then nodes scope lenient rules ts (offset + 1)
    else
      match ← step ts offset rules with
      | some (node, next) =>
        if offset < next then
          let others ← nodes scope lenient rules ts next
          return node :: others
        else .error (.violated .stalled)
      | none =>
        let t ← token ts offset
        let rest ← onward ts offset
        if lenient then nodes scope lenient rules ts (offset + 1)
        else refuse (.malformed (scope.diagnose rest) (some t.position))
  else return []
termination_by ts.length - offset

/-- The rules of a function body. -/
def body : List Indexed.Rule :=
  [⟨invocationPattern, readInvocation⟩, ⟨commentPattern, fun ts => .of (readComment ts)⟩]

def buildFunction (b : Builder) (ts : List Token) : Reading Node := do
  let declaration ← readDeclaration ts
  let inner ← .of (b.nested .functionBody declaration.opener)
  let nodes ← nodes inner.scope inner.options.lenient body declaration.body 0
  return .function declaration.signature nodes

/-- The rules of a scope, their functions built by `b`. -/
def rules (scope : Scope) (b : Builder) : List Indexed.Rule :=
  match scope with
  | .topLevel =>
    [⟨importPattern, readImport⟩, ⟨commentPattern, fun ts => .of (readComment ts)⟩,
      ⟨functionPattern, buildFunction b⟩]
  | .functionBody => body

section

variable {numbered : List Indexed.Rule} {plain : List CheckedScript.Rule}
  (hrules : List.Forall₂ Rule.Refines numbered plain)

include hrules

theorem step_refines (ts : List Token) (offset : Nat) :
    step ts offset numbered = .of ((Builder.stepBy offset (ts.drop offset) plain).result.map
      (Option.map fun (node, n) => (node, offset + n))) := by
  induction hrules with
  | nil => rfl
  | @cons rule rule' numbered plain hrule _ ih =>
    rw [step, getD_slice?_onward, matchLength_refines, ok_bind, hrule.pattern,
      Builder.result_stepBy_cons]
    rcases hmatch : rule'.pattern.matchLength (ts.drop offset) with _ | _ | n
    · exact ih
    · exact ih
    · dsimp only
      rw [stretch_zero (Pattern.matchLength_le _ _ _ hmatch), ok_bind, hrule.build]
      cases (rule'.build ((ts.drop offset).take (n + 1))).result <;> rfl

theorem nodes_refines (scope : Scope) (lenient : Bool) (ts : List Token) (offset start : Nat) :
    nodes scope lenient numbered ts offset =
      .of (Builder.nodesBy scope lenient plain start (ts.drop offset)).result := by
  induction hleft : ts.length - offset using Nat.strongRecOn generalizing offset start with
  | ind left ih =>
    subst hleft
    rw [nodes]
    split
    case isFalse hge =>
      rw [List.drop_eq_nil_of_le (by omega), Builder.result_nodesBy_nil]
      rfl
    case isTrue hlt =>
      obtain ⟨t, us, ht, hdrop⟩ := exists_drop_eq_cons hlt
      have hrest : ts.drop offset = t :: us := hdrop 0
      have hnext : ∀ n start, nodes scope lenient numbered ts (offset + (n + 1)) =
          .of (Builder.nodesBy scope lenient plain start (us.drop n)).result := by
        intro n start
        rw [ih _ (by omega) _ start rfl, hdrop, List.drop_succ_cons]
      rw [token_eq ht, ok_bind, hrest]
      by_cases hkind : t.kind = .semicolon
      · rw [if_pos hkind, Builder.result_nodesBy_semicolon _ _ _ _ hkind]
        exact hnext 0 _
      · rw [if_neg hkind, Builder.result_nodesBy_step _ _ _ _ hkind, step_refines hrules, hrest,
          Builder.result_stepBy_offset offset start]
        cases hstep : (Builder.stepBy start (t :: us) plain).result with
        | error e => rfl
        | ok found =>
          rcases found with _ | ⟨node, _ | n⟩
          · show (onward ts offset >>= fun rest => _) = _
            rw [onward_eq (Nat.le_of_lt hlt), ok_bind, hrest]
            cases lenient
            · rfl
            · exact hnext 0 _
          · exact absurd (Builder.pos_of_stepBy hstep) (Nat.lt_irrefl 0)
          · show (if offset < offset + (n + 1) then _ else _) = _
            rw [if_pos (by omega), hnext n (start + (n + 1)), of_map]
            rfl

end

theorem buildFunction_refines (b : Builder) (ts : List Token) :
    buildFunction b ts = .of (b.buildFunction ts).result := by
  have hbody : List.Forall₂ Rule.Refines body CheckedScript.Rule.body :=
    .cons ⟨rfl, readInvocation_refines⟩ (.cons ⟨rfl, fun _ => rfl⟩ .nil)
  rw [buildFunction, readDeclaration_refines, Builder.buildFunction, Run.result_bind,
    Run.result_ofExcept, of_bind]
  refine congrArg (Reading.of (Grammar.readDeclaration ts) >>= ·) (funext fun declaration => ?_)
  rw [Run.result_bind, Run.result_ofExcept, of_bind]
  refine congrArg (Reading.of (b.nested .functionBody declaration.opener) >>= ·)
    (funext fun inner => ?_)
  rw [nodes_refines hbody _ _ _ 0 0, List.drop_zero, Run.result_bind, Builder.result_buildBy]
  cases (Builder.nodesBy inner.scope inner.options.lenient CheckedScript.Rule.body 0
    declaration.body).result <;> rfl

/-- On any tokens, the constructors of both scopes do the same by number, where no access goes
wrong. -/
theorem rules_refine (scope : Scope) (b : Builder) :
    List.Forall₂ Rule.Refines (rules scope b) (scope.rules b) := by
  have hcomment : Rule.Refines ⟨commentPattern, fun ts => .of (readComment ts)⟩
      CheckedScript.Rule.comment := ⟨rfl, fun _ => rfl⟩
  cases scope with
  | topLevel =>
    exact .cons ⟨rfl, readImport_refines⟩
      (.cons hcomment (.cons ⟨rfl, buildFunction_refines b⟩ .nil))
  | functionBody => exact .cons ⟨rfl, readInvocation_refines⟩ (.cons hcomment .nil)

end Indexed

end CheckedScript
