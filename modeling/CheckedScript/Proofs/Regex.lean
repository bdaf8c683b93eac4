import Mathlib
import CheckedScript.Token.Rule

/-!
What regular expressions match. `Matches atStart atEnd r cs` says that `r` matches all of `cs`,
where nothing stands in front of `cs` if `atStart` says so, and nothing behind it if `atEnd` does.
Reading a text by `step` decides this relation, so a search finds exactly the matching stretches,
and the expression for names finds exactly the names.

Main results:
* `Matches.step_iff`: one character.
* `Matches.occursIn_iff`, `Matches.occursIn_anchored_iff`: a search, and a match of the whole text.
-/

namespace CheckedScript

namespace Regex

inductive Matches : Bool → Bool → Regex → List Char → Prop
  | empty {atStart atEnd : Bool} : Matches atStart atEnd empty []
  | one {atStart atEnd : Bool} {k : CharClass} {c : Char} (h : k.contains c) :
      Matches atStart atEnd (one k) [c]
  | start {atEnd : Bool} : Matches true atEnd start []
  | stop {atStart : Bool} : Matches atStart true stop []
  | seq {atStart atEnd : Bool} {r s : Regex} {u v : List Char}
      (first : Matches atStart (atEnd && v.isEmpty) r u)
      (second : Matches (atStart && u.isEmpty) atEnd s v) :
      Matches atStart atEnd (seq r s) (u ++ v)
  | left {atStart atEnd : Bool} {r s : Regex} {u : List Char} (h : Matches atStart atEnd r u) :
      Matches atStart atEnd (alt r s) u
  | right {atStart atEnd : Bool} {r s : Regex} {u : List Char} (h : Matches atStart atEnd s u) :
      Matches atStart atEnd (alt r s) u
  | done {atStart atEnd : Bool} {r : Regex} : Matches atStart atEnd (star r) []
  | again {atStart atEnd : Bool} {r : Regex} {c : Char} {u v : List Char}
      (first : Matches atStart (atEnd && v.isEmpty) r (c :: u))
      (rest : Matches false atEnd (star r) v) : Matches atStart atEnd (star r) (c :: u ++ v)

namespace Matches

variable {atStart atEnd : Bool} {r s : Regex} {cs : List Char}

theorem not_never : ¬ Matches atStart atEnd never cs := nofun

@[simp] theorem empty_iff : Matches atStart atEnd Regex.empty cs ↔ cs = [] :=
  ⟨fun h => by cases h; rfl, fun h => h ▸ .empty⟩

@[simp] theorem start_iff : Matches atStart atEnd Regex.start cs ↔ atStart = true ∧ cs = [] :=
  ⟨fun h => by cases h; exact ⟨rfl, rfl⟩, fun ⟨h, hcs⟩ => h ▸ hcs ▸ .start⟩

@[simp] theorem stop_iff : Matches atStart atEnd Regex.stop cs ↔ atEnd = true ∧ cs = [] :=
  ⟨fun h => by cases h; exact ⟨rfl, rfl⟩, fun ⟨h, hcs⟩ => h ▸ hcs ▸ .stop⟩

@[simp] theorem one_iff {k : CharClass} :
    Matches atStart atEnd (Regex.one k) cs ↔ ∃ c, k.contains c = true ∧ cs = [c] :=
  ⟨fun h => by cases h with | one h => exact ⟨_, h, rfl⟩, fun ⟨_, h, hcs⟩ => hcs ▸ .one h⟩

theorem seq_iff : Matches atStart atEnd (Regex.seq r s) cs ↔
    ∃ u v, cs = u ++ v ∧ Matches atStart (atEnd && v.isEmpty) r u ∧
      Matches (atStart && u.isEmpty) atEnd s v :=
  ⟨fun h => by cases h with | seq first second => exact ⟨_, _, rfl, first, second⟩,
    fun ⟨_, _, hcs, first, second⟩ => hcs ▸ .seq first second⟩

theorem seq_cons_iff {c : Char} : Matches atStart atEnd (Regex.seq r s) (c :: cs) ↔
    (Matches atStart false r [] ∧ Matches atStart atEnd s (c :: cs)) ∨
    ∃ u v, cs = u ++ v ∧ Matches atStart (atEnd && v.isEmpty) r (c :: u) ∧
      Matches false atEnd s v := by
  rw [seq_iff]
  constructor
  · rintro ⟨u, v, hcs, first, second⟩
    cases u with
    | nil =>
      obtain rfl : v = c :: cs := hcs.symm
      exact .inl ⟨by simpa using first, by simpa using second⟩
    | cons d u =>
      rw [List.cons_append] at hcs
      obtain ⟨rfl, rfl⟩ := List.cons.inj hcs
      exact .inr ⟨u, v, rfl, first, by simpa using second⟩
  · rintro (⟨first, second⟩ | ⟨u, v, rfl, first, second⟩)
    · exact ⟨[], c :: cs, rfl, by simpa using first, by simpa using second⟩
    · exact ⟨c :: u, v, rfl, first, by simpa using second⟩

theorem alt_iff : Matches atStart atEnd (Regex.alt r s) cs ↔
    Matches atStart atEnd r cs ∨ Matches atStart atEnd s cs :=
  ⟨fun h => by
    cases h with
    | left h => exact .inl h
    | right h => exact .inr h,
    fun h => h.elim .left .right⟩

theorem star_cons_iff {c : Char} : Matches atStart atEnd (star r) (c :: cs) ↔
    ∃ u v, cs = u ++ v ∧ Matches atStart (atEnd && v.isEmpty) r (c :: u) ∧
      Matches false atEnd (star r) v := by
  constructor
  · intro h
    generalize htext : c :: cs = text at h
    cases h with
    | done => cases htext
    | again first rest =>
      rw [List.cons_append] at htext
      obtain ⟨rfl, rfl⟩ := List.cons.inj htext
      exact ⟨_, _, rfl, first, rest⟩
  · rintro ⟨u, v, rfl, first, rest⟩
    exact .again first rest

/-! ## The constructors that simplify -/

theorem cat_iff :
    Matches atStart atEnd (cat r s) cs ↔ Matches atStart atEnd (Regex.seq r s) cs := by
  fun_cases cat r s with
  | case1 => simp [seq_iff, not_never]
  | case2 => simp [seq_iff, not_never]
  | case3 =>
    rw [seq_iff]
    constructor
    · intro h
      exact ⟨[], cs, rfl, .empty, by simpa using h⟩
    · rintro ⟨u, v, rfl, hu, hv⟩
      obtain rfl := empty_iff.mp hu
      simpa using hv
  | case4 => simp [seq_iff]
  | case5 => rfl

theorem mem_alternatives_iff :
    Matches atStart atEnd r cs ↔ ∃ s ∈ alternatives r, Matches atStart atEnd s cs := by
  induction r with
  | never => simp [alternatives, not_never]
  | alt r s ihr ihs => simp [alternatives, alt_iff, ihr, ihs, or_and_right, exists_or]
  | _ => simp [alternatives]

theorem anyOf_iff {rs : List Regex} :
    Matches atStart atEnd (anyOf rs) cs ↔ ∃ r ∈ rs, Matches atStart atEnd r cs := by
  fun_induction anyOf rs with
  | case1 => simp [not_never]
  | case2 r => simp
  | case3 r rs _ ih => simp [alt_iff, ih]

theorem either_iff : Matches atStart atEnd (either r s) cs ↔
    Matches atStart atEnd r cs ∨ Matches atStart atEnd s cs := by
  rw [either, anyOf_iff, mem_alternatives_iff, @mem_alternatives_iff _ _ s]
  simp [List.mem_eraseDups, or_and_right, exists_or]

/-! ## Reading a text -/

theorem matchesEmpty_iff :
    matchesEmpty atStart atEnd r = true ↔ Matches atStart atEnd r [] := by
  induction r with
  | never => simp [matchesEmpty, not_never]
  | empty => simp [matchesEmpty]
  | one k => simp [matchesEmpty]
  | start => simp [matchesEmpty]
  | stop => simp [matchesEmpty]
  | seq r s ihr ihs => simp [matchesEmpty, seq_iff, ihr, ihs, and_assoc]
  | alt r s ihr ihs => simp [matchesEmpty, alt_iff, ihr, ihs]
  | star r => simp [matchesEmpty, Matches.done]

/-- What is left after a character matches the rest of a text with that character in front. -/
theorem step_iff {c : Char} :
    Matches false atEnd (step atStart c r) cs ↔ Matches atStart atEnd r (c :: cs) := by
  induction r generalizing atStart atEnd cs with
  | never => simp [step, not_never]
  | empty => simp [step, not_never]
  | start => simp [step, not_never]
  | stop => simp [step, not_never]
  | one k =>
    rw [step, one_iff]
    split
    case isTrue h =>
      rw [empty_iff]
      constructor
      · rintro rfl
        exact ⟨c, h, rfl⟩
      · rintro ⟨d, -, hd⟩
        exact (List.cons.inj hd).2
    case isFalse h =>
      constructor
      · exact fun hnever => (not_never hnever).elim
      · rintro ⟨d, hd, heq⟩
        obtain ⟨rfl, -⟩ := List.cons.inj heq
        exact absurd hd h
  | alt r s ihr ihs => rw [step, either_iff, ihr, ihs, alt_iff]
  | star r ih =>
    rw [step, cat_iff, seq_iff, star_cons_iff]
    simp only [ih, Bool.false_and]
  | seq r s ihr ihs =>
    -- The first part takes the character, or it is empty and leaves it to the second.
    have hfirst : Matches false atEnd (cat (step atStart c r) s) cs ↔ ∃ u v, cs = u ++ v ∧
        Matches atStart (atEnd && v.isEmpty) r (c :: u) ∧ Matches false atEnd s v := by
      rw [cat_iff, seq_iff]
      simp only [ihr, Bool.false_and]
    rw [step, seq_cons_iff, ← matchesEmpty_iff, ← hfirst, ← ihs]
    split
    case isTrue h => rw [either_iff, or_comm, and_iff_right h]
    case isFalse h => rw [or_iff_right fun hboth => h hboth.1]

theorem matchesAll_iff : matchesAll atStart r cs = true ↔ Matches atStart true r cs := by
  induction cs generalizing atStart r with
  | nil => rw [matchesAll, matchesEmpty_iff]
  | cons c cs ih => rw [matchesAll, ih, step_iff]

theorem star_one_iff {k : CharClass} :
    Matches atStart atEnd (star (Regex.one k)) cs ↔ ∀ c ∈ cs, k.contains c = true := by
  induction cs generalizing atStart with
  | nil => simp [Matches.done]
  | cons c cs ih =>
    rw [star_cons_iff, List.forall_mem_cons, ← @ih false]
    constructor
    · rintro ⟨u, v, rfl, first, rest⟩
      obtain ⟨d, hd, heq⟩ := one_iff.mp first
      obtain ⟨rfl, rfl⟩ := List.cons.inj heq
      exact ⟨hd, rest⟩
    · rintro ⟨hc, hrest⟩
      exact ⟨[], cs, rfl, .one hc, hrest⟩

/-- A search finds the stretches that match where they stand. -/
theorem occursIn_iff : occursIn r cs = true ↔
    ∃ u v w, cs = u ++ (v ++ w) ∧ Matches u.isEmpty w.isEmpty r v := by
  have hall : ∀ {atStart atEnd : Bool} {cs : List Char},
      Matches atStart atEnd (star (Regex.one .all)) cs := by
    intro atStart atEnd cs
    exact star_one_iff.mpr fun c _ => rfl
  rw [occursIn, matchesAll_iff, cat_iff, seq_iff]
  simp only [cat_iff, seq_iff, hall, true_and, and_true, Bool.true_and]
  constructor
  · rintro ⟨u, _, rfl, v, w, rfl, h⟩
    exact ⟨u, v, w, rfl, h⟩
  · rintro ⟨u, v, w, rfl, h⟩
    exact ⟨u, v ++ w, rfl, v, w, rfl, h⟩

/-- Between the marks for start and end an expression has to match the whole text. -/
theorem occursIn_anchored_iff :
    occursIn (cat .start (cat r .stop)) cs = true ↔ Matches true true r cs := by
  rw [occursIn_iff]
  simp only [cat_iff, seq_iff, start_iff, stop_iff]
  constructor
  · -- The marks leave nothing around the stretch that is found.
    rintro ⟨u, _, w, rfl, _, _, rfl, ⟨hu, rfl⟩, v, _, rfl, h, hw, rfl⟩
    obtain rfl := List.isEmpty_iff.mp hu
    obtain rfl := List.isEmpty_iff.mp hw
    simpa using h
  · intro h
    exact ⟨[], cs, [], by simp, [], cs, rfl, ⟨rfl, rfl⟩, cs, [], by simp, by simpa using h, rfl,
      rfl⟩

end Matches

end Regex

/-! ## Names -/

/-- Whether the text is a letter followed by letters, digits and underscores. -/
def isName : List Char → Bool
  | [] => false
  | c :: cs => c.isAlpha && cs.all fun d => d.isAlphanum || d = '_'

theorem alphanum_of_isName {cs : List Char} (h : isName cs = true) :
    ∀ c ∈ cs, (c.isAlphanum || c = '_') = true := by
  cases cs with
  | nil => cases h
  | cons c cs =>
    rw [isName, Bool.and_eq_true, List.all_eq_true] at h
    refine List.forall_mem_cons.mpr ⟨?_, h.2⟩
    rw [Char.isAlphanum, h.1]
    rfl

theorem contains_letters (c : Char) :
    CharClass.contains ⟨false, [('a', 'z'), ('A', 'Z')]⟩ c = c.isAlpha := by
  simp [CharClass.contains, Char.isAlpha, Char.isUpper, Char.isLower, Char.le_def, Bool.or_comm]

theorem contains_letters_digits (c : Char) :
    CharClass.contains ⟨false, [('a', 'z'), ('A', 'Z')] ++ [('0', '9'), ('_', '_')]⟩ c =
      (c.isAlphanum || c = '_') := by
  have hscore : (decide ('_' ≤ c) && decide (c ≤ '_')) = decide (c = '_') := by
    rw [Bool.eq_iff_iff]
    simp only [Bool.and_eq_true, decide_eq_true_eq]
    exact ⟨fun ⟨h, h'⟩ => Char.le_antisymm h' h, fun h => h ▸ ⟨Char.le_refl _, Char.le_refl _⟩⟩
  rw [Char.isAlphanum, ← contains_letters, CharClass.contains, CharClass.contains, Char.isDigit]
  simp [← hscore, Char.le_def, Bool.or_assoc]

theorem occursIn_nameRegex (cs : List Char) :
    Token.Rule.nameRegex.occursIn cs = isName cs := by
  rw [Bool.eq_iff_iff, Token.Rule.nameRegex, Regex.Matches.occursIn_anchored_iff,
    Regex.Matches.cat_iff, Regex.Matches.seq_iff]
  simp only [Regex.Matches.one_iff, Regex.Matches.star_one_iff, contains_letters,
    contains_letters_digits]
  constructor
  · rintro ⟨_, v, rfl, ⟨c, hc, rfl⟩, hv⟩
    simpa [isName, hc] using hv
  · intro h
    cases cs with
    | nil => cases h
    | cons c cs =>
      simp only [isName, Bool.and_eq_true, List.all_eq_true] at h
      exact ⟨[c], cs, rfl, ⟨c, h.1, rfl⟩, h.2⟩

end CheckedScript
