import Mathlib.Data.List.Forall2
import CheckedScript.Proofs.Building

/-!
Builders that run in step. Patterns look at the kinds of tokens only, so a change of tokens that
keeps the kinds takes every step of a builder to the same step. `Rule.Follows` says this of a
rule, and from the rules it carries over to all that is built.

Main result:
* `Builder.result_nodesBy_follows`: what is built from changed tokens.
-/

namespace CheckedScript

open Token (Kind)

/-! ## Results -/

section

variable {ε ε' α β γ δ : Type} {k : ε → ε'}

/-- A result with its error changed by `k` and its value by `m`. -/
def mapBoth (k : ε → ε') (m : α → β) : Except ε α → Except ε' β
  | .ok a => .ok (m a)
  | .error e => .error (k e)

theorem mapBoth_id (x : Except ε α) : mapBoth id id x = x := by
  cases x <;> rfl

theorem mapBoth_eq_ok_iff {m : α → β} {x : Except ε α} {b : β} :
    mapBoth k m x = .ok b ↔ ∃ a, x = .ok a ∧ m a = b := by
  cases x with
  | error e => exact ⟨nofun, nofun⟩
  | ok a => simp [mapBoth]

theorem map_mapBoth {m : α → β} {n : γ → δ} {f : α → γ} {f' : β → δ}
    (h : ∀ a, f' (m a) = n (f a)) (x : Except ε α) :
    (mapBoth k m x).map f' = mapBoth k n (x.map f) := by
  cases x with
  | error e => rfl
  | ok a => exact congrArg Except.ok (h a)

theorem bind_mapBoth {m : α → β} {n : γ → δ} {f : α → Except ε γ} {f' : β → Except ε' δ}
    (h : ∀ a, f' (m a) = mapBoth k n (f a)) (x : Except ε α) :
    (mapBoth k m x).bind f' = mapBoth k n (x.bind f) := by
  cases x with
  | error e => rfl
  | ok a => exact h a

end

/-! ## Patterns -/

namespace Pattern

section

variable {g : Token → Token} (hkind : ∀ t, (g t).kind = t.kind)

include hkind

theorem matchOne_map (p : Kind → Bool) (ts : List Token) :
    matchOne p (ts.map g) = matchOne p ts := by
  cases ts with
  | nil => rfl
  | cons t ts => rw [List.map_cons, matchOne, matchOne, hkind]

theorem matchExact_map (kinds : List Kind) (ts : List Token) :
    matchExact kinds (ts.map g) = matchExact kinds ts := by
  have hkinds : (ts.map g).map (·.kind) = ts.map (·.kind) := by
    rw [List.map_map]
    exact List.map_congr_left fun t _ => hkind t
  rw [matchExact_eq, matchExact_eq, hkinds]

theorem matchClose_map (opener closer : Kind) (depth : Nat) (ts : List Token) :
    matchClose opener closer depth (ts.map g) = matchClose opener closer depth ts := by
  induction ts generalizing depth with
  | nil => rfl
  | cons t ts ih => simp only [List.map_cons, matchClose, hkind, ih]

theorem matchBlock_map (opener closer : Kind) (ts : List Token) :
    matchBlock opener closer (ts.map g) = matchBlock opener closer ts := by
  cases ts with
  | nil => rfl
  | cons t ts => rw [List.map_cons, matchBlock, matchBlock, hkind, matchClose_map hkind]

end

theorem repetition_map {g : Token → Token} {m : List Token → Option Nat}
    (hm : ∀ ts : List Token, m (ts.map g) = m ts) (ts : List Token) :
    repetition m (ts.map g) = repetition m ts := by
  fun_induction repetition m ts with
  | case1 => rw [List.map_nil, repetition]
  | case2 t ts hn => rw [List.map_cons, repetition, ← List.map_cons, hm, hn]
  | case3 t ts hn => rw [List.map_cons, repetition, ← List.map_cons, hm, hn]
  | case4 t ts n hn length count heq ih =>
    rw [List.map_cons, repetition, ← List.map_cons, hm, hn]
    dsimp only
    rw [← List.map_drop, ih, heq]

mutual

/-- Patterns look at the kinds of tokens only. -/
theorem matchLength_map {g : Token → Token} (hkind : ∀ t, (g t).kind = t.kind) :
    ∀ (p : Pattern) (ts : List Token), p.matchLength (ts.map g) = p.matchLength ts
  | exact kinds, ts => by rw [matchLength, matchLength, matchExact_map hkind]
  | other kind, ts => by rw [matchLength, matchLength, matchOne_map hkind]
  | oneOf kinds, ts => by rw [matchLength, matchLength, matchOne_map hkind]
  | oneOrMore p, ts => by
    rw [matchLength, matchLength, repetition_map (matchLength_map hkind p)]
  | zeroOrMore p, ts => by
    rw [matchLength, matchLength, repetition_map (matchLength_map hkind p)]
  | sequence ps, ts => by rw [matchLength, matchLength, matchSequence_map hkind ps]
  | block opener closer, ts => by rw [matchLength, matchLength, matchBlock_map hkind]

theorem matchSequence_map {g : Token → Token} (hkind : ∀ t, (g t).kind = t.kind) :
    ∀ (ps : List Pattern) (ts : List Token), matchSequence ps (ts.map g) = matchSequence ps ts
  | [], ts => by rw [matchSequence, matchSequence]
  | p :: ps, ts => by
    rw [matchSequence, matchSequence, matchLength_map hkind p]
    cases p.matchLength ts with
    | none => rfl
    | some n =>
      dsimp only
      rw [← List.map_drop, matchSequence_map hkind ps]

end

theorem matchLength_congr {ts us : List Token} (h : ts.map (·.kind) = us.map (·.kind))
    (p : Pattern) : p.matchLength ts = p.matchLength us := by
  let blank (t : Token) : Token := ⟨t.kind, "", {}⟩
  have hblank : ∀ ds : List Token,
      ds.map blank = (ds.map (·.kind)).map fun kind => (⟨kind, "", {}⟩ : Token) := by
    intro ds
    rw [List.map_map]
    rfl
  have hsame : ts.map blank = us.map blank := by rw [hblank, hblank, h]
  have hkinds : ∀ ds : List Token, p.matchLength (ds.map blank) = p.matchLength ds :=
    @matchLength_map blank (fun _ => rfl) p
  rw [← hkinds ts, hsame, hkinds]

end Pattern

/-! ## Rules and builders -/

section

variable {g : Token → Token} {m : Node → Node} {k : CompileError → CompileError}

/-- On changed tokens `rule'` does what `rule` does, with its node and its error changed. -/
structure Rule.Follows (g : Token → Token) (m : Node → Node) (k : CompileError → CompileError)
    (rule rule' : Rule) : Prop where
  pattern : rule'.pattern = rule.pattern
  build : ∀ ts : List Token, (rule'.build (ts.map g)).result = mapBoth k m (rule.build ts).result

namespace Builder

theorem result_stepBy_follows (hkind : ∀ t, (g t).kind = t.kind) {rules rules' : List Rule}
    (hrules : List.Forall₂ (Rule.Follows g m k) rules rules') (offset : Nat) (ts : List Token) :
    (stepBy offset (ts.map g) rules').result =
      mapBoth k (Option.map fun (node, n) => (m node, n)) (stepBy offset ts rules).result := by
  induction hrules with
  | nil => rfl
  | @cons rule rule' rules rules' hrule _ ih =>
    rw [result_stepBy_cons, result_stepBy_cons, hrule.pattern, Pattern.matchLength_map hkind]
    split
    · rw [← List.map_take, hrule.build]
      apply map_mapBoth
      intro node
      rfl
    · exact ih

/-- What is built from changed tokens is what is built from the tokens, changed. -/
theorem result_nodesBy_follows (hkind : ∀ t, (g t).kind = t.kind) {rules rules' : List Rule}
    (hrules : List.Forall₂ (Rule.Follows g m k) rules rules') {scope : Scope}
    (hfault : ∀ t ts, k (.malformed (scope.diagnose (t :: ts)) (some t.position)) =
      .malformed (scope.diagnose ((t :: ts).map g)) (some (g t).position))
    (lenient : Bool) (offset : Nat) (ts : List Token) :
    (nodesBy scope lenient rules' offset (ts.map g)).result =
      mapBoth k (List.map m) (nodesBy scope lenient rules offset ts).result := by
  induction hlen : ts.length using Nat.strongRecOn generalizing ts offset with
  | ind length ih =>
    subst hlen
    cases ts with
    | nil => rw [List.map_nil, result_nodesBy_nil, result_nodesBy_nil]; rfl
    | cons t ts =>
      rw [List.map_cons]
      by_cases ht : t.kind = .semicolon
      · rw [result_nodesBy_semicolon _ _ _ _ ht,
          result_nodesBy_semicolon _ _ _ _ ((hkind t).trans ht), ih _ (by simp) _ _ rfl]
      · rw [result_nodesBy_step _ _ _ _ ht,
          result_nodesBy_step _ _ _ _ (fun h => ht ((hkind t).symm.trans h)), ← List.map_cons,
          result_stepBy_follows hkind hrules]
        cases (stepBy offset (t :: ts) rules).result with
        | error e => rfl
        | ok found =>
          rcases found with _ | ⟨node, n⟩
          · -- No rule matches, here or there.
            cases lenient with
            | false => exact congrArg Except.error (hfault t ts).symm
            | true => exact ih _ (by simp) _ _ rfl
          · have hshort : (ts.drop (n - 1)).length < (t :: ts).length := by
              simp only [List.length_drop, List.length_cons]
              omega
            dsimp only [mapBoth, Option.map]
            rw [← List.map_drop, ih _ hshort _ _ rfl]
            apply map_mapBoth
            intro nodes
            rfl

end Builder

end

end CheckedScript
