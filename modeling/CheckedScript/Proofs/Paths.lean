import Mathlib.Data.List.TakeWhile
import CheckedScript.Path

/-!
Paths by their segments. A path that is cut behind a slash has the segments of both sides, one
after the other. The parent of a path and the path with another extension are such a front of it,
with nothing or another name behind.

Main results:
* `front_of_parent?`: the parent of a path.
* `withExtension_sh`: the path of a script.

Paths are texts here; what they denote is a matter of `FileTree`.
-/

namespace CheckedScript.Path

/-! ## Cutting a path -/

namespace segments

theorem go_ne_nil (cs : List Char) : go cs ≠ [] := by
  cases cs with
  | nil => exact List.cons_ne_nil _ _
  | cons c cs =>
    unfold go
    split
    · exact List.cons_ne_nil _ _
    · split <;> exact List.cons_ne_nil _ _

theorem go_slash (front back : List Char) :
    go (front ++ '/' :: back) = go front ++ go back := by
  induction front with
  | nil => rfl
  | cons c cs ih =>
    rw [List.cons_append, go, go, ih]
    split
    · rfl
    · cases hgo : go cs with
      | nil => exact absurd hgo (go_ne_nil cs)
      | cons segment rest => rfl

theorem go_of_not_mem {cs : List Char} (h : '/' ∉ cs) : go cs = [cs] := by
  induction cs with
  | nil => rfl
  | cons c cs ih =>
    obtain ⟨hc, hcs⟩ := not_or.mp (mt List.mem_cons.mpr h)
    rw [go, if_neg (Ne.symm hc), ih hcs]

end segments

/-- A front of a path that a slash ends, or no front at all. -/
def IsFront (front : List Char) : Prop := front = [] ∨ ∃ before, front = before ++ ['/']

/-- The segments of a front. -/
def frontSegments (front : List Char) : List String := (segments (String.ofList front)).dropLast

theorem segments_front {front : List Char} (h : IsFront front) (back : List Char) :
    segments (String.ofList (front ++ back)) =
      frontSegments front ++ segments (String.ofList back) := by
  obtain rfl | ⟨before, rfl⟩ := h
  · rfl
  · have hfront : segments.go (before ++ ['/']) = segments.go before ++ [[]] :=
      segments.go_slash before []
    have hboth : segments.go (before ++ ['/'] ++ back) =
        segments.go before ++ segments.go back := by
      rw [List.append_assoc]
      exact segments.go_slash before back
    simp only [frontSegments, segments, String.toList_ofList, hfront, hboth, List.map_append,
      List.map_cons, List.map_nil, List.dropLast_concat]

theorem segments_of_not_mem {cs : List Char} (h : '/' ∉ cs) :
    segments (String.ofList cs) = [String.ofList cs] := by
  rw [segments, String.toList_ofList, segments.go_of_not_mem h]
  rfl

theorem isFront_dropWhile (reversed : List Char) :
    IsFront (reversed.dropWhile (· ≠ '/')).reverse := by
  cases h : reversed.dropWhile (· ≠ '/') with
  | nil => exact .inl rfl
  | cons c cs =>
    have hc : c = '/' := by
      have hne : reversed.dropWhile (· ≠ '/') ≠ [] := by rw [h]; exact List.cons_ne_nil _ _
      have hhead := List.head_dropWhile_not (fun c => decide (c ≠ '/')) hne
      simpa only [h, List.head_cons, decide_eq_false_iff_not, not_not] using hhead
    rw [List.reverse_cons, hc]
    exact .inr ⟨_, rfl⟩

/-! ## Trimming -/

/-- What trimming takes off the end of a path leads nowhere. -/
theorem segments_trimmed (reversed : List Char) :
    ∃ idle, (∀ segment ∈ idle, segment = "" ∨ segment = ".") ∧
      segments (String.ofList reversed.reverse) =
        segments (String.ofList (trimmed reversed).reverse) ++ idle := by
  fun_induction trimmed reversed with
  | case1 cs ih =>
    obtain ⟨idle, hidle, heq⟩ := ih
    refine ⟨idle ++ [""], ?_, ?_⟩
    · intro segment hmem
      obtain hmem | hmem := List.mem_append.mp hmem
      · exact hidle segment hmem
      · exact .inl (List.mem_singleton.mp hmem)
    · rw [← List.append_assoc, ← heq]
      have hgo : segments.go (cs.reverse ++ ['/']) = segments.go cs.reverse ++ [[]] :=
        segments.go_slash cs.reverse []
      simp only [segments, String.toList_ofList, List.reverse_cons, hgo, List.map_append]
      rfl
  | case2 cs ih =>
    obtain ⟨idle, hidle, heq⟩ := ih
    refine ⟨idle ++ ["."], ?_, ?_⟩
    · intro segment hmem
      obtain hmem | hmem := List.mem_append.mp hmem
      · exact hidle segment hmem
      · exact .inr (List.mem_singleton.mp hmem)
    · rw [← List.append_assoc, ← heq]
      have hgo : segments.go (cs.reverse ++ ['/'] ++ ['.']) =
          segments.go cs.reverse ++ [['.']] := by
        rw [List.append_assoc]
        exact segments.go_slash cs.reverse ['.']
      simp only [segments, String.toList_ofList, List.reverse_cons, hgo, List.map_append]
      rfl
  | case3 cs => exact ⟨[], by simp, by rw [List.append_nil]⟩

theorem trimmed_suffix (cs : List Char) : trimmed cs <:+ cs := by
  fun_induction trimmed cs with
  | case1 cs ih => exact ih.trans (List.suffix_cons _ _)
  | case2 cs ih => exact ih.trans ((List.suffix_cons _ _).trans (List.suffix_cons _ _))
  | case3 cs => exact List.suffix_rfl

/-- The parent of a path is a front of it. -/
theorem front_of_parent? {path directory : String} (h : parent? path = some directory) :
    ∃ front back, IsFront front ∧ directory = String.ofList front ∧
      path = String.ofList (front ++ back) := by
  have hdirectory : directory =
      String.ofList ((trimmed path.toList.reverse).dropWhile (· ≠ '/')).reverse := by
    unfold parent? at h
    split at h
    · cases h
    · cases h
    · exact (Option.some.inj h).symm
  have hsuffix : (trimmed path.toList.reverse).dropWhile (· ≠ '/') <:+ path.toList.reverse :=
    (List.dropWhile_suffix _).trans (trimmed_suffix _)
  obtain ⟨back, hback⟩ := hsuffix
  refine ⟨_, back.reverse, isFront_dropWhile _, hdirectory, ?_⟩
  rw [← List.reverse_append, hback, List.reverse_reverse, String.ofList_toList]

/-! ## The last name -/

/-- The path ends in a name behind a front, apart from what leads nowhere. -/
structure EndsIn (path : String) (front name : List Char) : Prop where
  isFront : IsFront front
  isName : String.ofList name ∉ ["", ".", ".."]
  noSlash : '/' ∉ name
  segments_eq : ∃ idle, (∀ segment ∈ idle, segment = "" ∨ segment = ".") ∧
    segments path = frontSegments front ++ String.ofList name :: idle

theorem endsIn_of_splitName? {path directory name : String}
    (h : splitName? path = some (directory, name)) :
    EndsIn path directory.toList name.toList := by
  unfold splitName? at h
  dsimp only at h
  split at h
  case isTrue => cases h
  case isFalse hname =>
    obtain ⟨rfl, rfl⟩ := Prod.mk.inj (Option.some.inj h)
    rw [String.toList_ofList, String.toList_ofList]
    have hcut : (trimmed path.toList.reverse).reverse =
        ((trimmed path.toList.reverse).dropWhile (· ≠ '/')).reverse ++
          ((trimmed path.toList.reverse).takeWhile (· ≠ '/')).reverse := by
      rw [← List.reverse_append, List.takeWhile_append_dropWhile]
    have hslash : '/' ∉ ((trimmed path.toList.reverse).takeWhile (· ≠ '/')).reverse := by
      intro hmem
      have himp := List.mem_takeWhile_imp (List.mem_reverse.mp hmem)
      simp at himp
    refine ⟨isFront_dropWhile _, ?_, hslash, ?_⟩
    · simpa [or_assoc] using hname
    · obtain ⟨idle, hidle, heq⟩ := segments_trimmed path.toList.reverse
      refine ⟨idle, hidle, ?_⟩
      rw [List.reverse_reverse, String.ofList_toList, hcut,
        segments_front (isFront_dropWhile _), segments_of_not_mem hslash] at heq
      rw [heq, List.append_assoc]
      rfl

theorem not_mem_stem {name : String} (h : '/' ∉ name.toList) : '/' ∉ (stem name).toList := by
  unfold stem
  dsimp only
  split
  · rw [String.toList_ofList]
    exact fun hmem => h (List.mem_of_mem_take hmem)
  · exact h

/-- What stands behind the last slash does not make a path absolute. -/
theorem isAbsolute_append (directory : String) {name other : String} (hname : '/' ∉ name.toList)
    (hother : '/' ∉ other.toList) :
    isAbsolute (directory ++ name) = isAbsolute (directory ++ other) := by
  rw [isAbsolute, isAbsolute, String.toList_append, String.toList_append]
  cases directory.toList with
  | nil =>
    have hhead : ∀ {cs : List Char}, '/' ∉ cs → cs.head? ≠ some '/' :=
      fun hslash heq => hslash (List.mem_of_mem_head? heq)
    rw [List.nil_append, List.nil_append, decide_eq_false (hhead hname),
      decide_eq_false (hhead hother)]
  | cons c cs => rfl

/-- Giving a path the extension of a script keeps it, puts another name behind its front, or
leaves `..` there. -/
theorem withExtension_sh (path : String) :
    withExtension path "sh" = path ∨
      (∃ front name other, EndsIn path front name ∧
        EndsIn (withExtension path "sh") front other) ∨
      ∃ front name, EndsIn path front name ∧
        isAbsolute (withExtension path "sh") = isAbsolute path ∧
        segments (withExtension path "sh") = frontSegments front ++ [".."] := by
  rw [withExtension]
  cases hsplit : splitName? path with
  | none => exact .inl rfl
  | some parts =>
    obtain ⟨directory, name⟩ := parts
    have hends := endsIn_of_splitName? hsplit
    dsimp only
    split
    case isTrue hparent =>
      obtain ⟨-, hpath⟩ := Bool.and_eq_true_iff.mp hparent
      have hdots : '/' ∉ "..".toList := by decide
      refine .inr (.inr ⟨_, _, hends, ?_, ?_⟩)
      · rw [isAbsolute_append directory hdots hends.noSlash, ← of_decide_eq_true hpath]
      · have htext : directory ++ ".." = String.ofList (directory.toList ++ "..".toList) := by
          rw [String.ofList_append, String.ofList_toList, String.ofList_toList]
        rw [htext, segments_front hends.isFront, segments_of_not_mem hdots, String.ofList_toList]
    case isFalse =>
      have htext : directory ++ stem name ++ "." ++ "sh" =
          String.ofList (directory.toList ++ ((stem name).toList ++ ['.', 's', 'h'])) := by
        rw [String.append_assoc, String.append_assoc, String.ofList_append, String.ofList_append,
          String.ofList_toList, String.ofList_toList]
        rfl
      have hslash : '/' ∉ (stem name).toList ++ ['.', 's', 'h'] := by
        intro hmem
        obtain hmem | hmem := List.mem_append.mp hmem
        · exact not_mem_stem hends.noSlash hmem
        · simp at hmem
      have hname : String.ofList ((stem name).toList ++ ['.', 's', 'h']) ∉ ["", ".", ".."] := by
        intro hmem
        have hlast : ∀ text ∈ ["", ".", ".."], 'h' ∉ text.toList := by decide
        refine hlast _ hmem ?_
        simp
      have hsegments : segments (directory ++ stem name ++ "." ++ "sh") =
          frontSegments directory.toList ++
            [String.ofList ((stem name).toList ++ ['.', 's', 'h'])] := by
        rw [htext, segments_front hends.isFront, segments_of_not_mem hslash]
      exact .inr (.inl ⟨_, _, _, hends, hends.isFront, hname, hslash, [], by simp, hsegments⟩)

example : withExtension "x/..bk" "sh" = "x/.." ∧ withExtension "x/..bk/" "sh" = "x/..sh" ∧
    withExtension "x/.bk" "sh" = "x/.bk.sh" := by decide +kernel

/-- Paths with the same segments are the same. -/
theorem same_of_segments {a b : String} (h : segments a = segments b) : same a b = true := by
  rw [same, components, components, h]
  exact decide_eq_true rfl

end CheckedScript.Path
