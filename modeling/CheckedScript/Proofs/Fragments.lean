import CheckedScript.Proofs.Regions

/-!
The fragments of a source. Their texts are the only way to cut the source into separators and runs
such that no two runs touch, so any stretch of fragments is cut again as before. A fragment stands
at the line and column that the texts in front of it lead to.

Main results:
* `ofSource_only_cut`: the texts of the fragments.
* `position_by_text_before`: their positions.
* `flushed_scan_eq_ofSource`: a scan that keeps an open run and two counters, and looks at each
  character once, finds these fragments.
-/

namespace CheckedScript

/-! ## Behind a text -/

namespace Position

theorem behind_column_of_one_line (file : Option String) {cs : List Char} (h : '\n' ∉ cs) :
    (behind file cs).column = 1 + cs.length := by
  have hline : cs.reverse.takeWhile (· ≠ '\n') = cs.reverse := by
    refine List.takeWhile_eq_self_iff.mpr fun c hc => ?_
    have hne : c ≠ '\n' := fun heq => h (heq ▸ List.mem_reverse.mp hc)
    simpa using hne
  rw [behind, hline, List.length_reverse]

/-- Only what follows the last line end counts. -/
theorem behind_column_of_lines (file : Option String) (lines : List Char) {line : List Char}
    (h : '\n' ∉ line) : (behind file (lines ++ '\n' :: line)).column = 1 + line.length := by
  have hline : ∀ c ∈ line.reverse, decide (c ≠ '\n') = true := by
    intro c hc
    have hne : c ≠ '\n' := fun heq => h (heq ▸ List.mem_reverse.mp hc)
    simpa using hne
  have hreverse : (lines ++ '\n' :: line).reverse = line.reverse ++ '\n' :: lines.reverse := by simp
  rw [behind, hreverse, List.takeWhile_append_of_pos hline,
    List.takeWhile_cons_of_neg (by simp), List.append_nil, List.length_reverse]

end Position

namespace Fragment

/-! ## Texts -/

/-- A run of characters that do not separate. -/
def IsRun (cs : List Char) : Prop := cs ≠ [] ∧ ∀ c ∈ cs, isSeparator c = false

/-- Separators by themselves, and runs as long as they can be: none touches another. -/
structure Maximal (pieces : List (List Char)) : Prop where
  cut : ∀ piece ∈ pieces, (∃ c, isSeparator c = true ∧ piece = [c]) ∨ IsRun piece
  apart : pieces.IsChain fun piece next => ¬ (IsRun piece ∧ IsRun next)

theorem not_isRun_of_separator {c : Char} (h : isSeparator c = true) (cs : List Char) :
    ¬ IsRun (c :: cs) := by
  rintro ⟨-, hrun⟩
  have hc := hrun c (List.mem_cons_self ..)
  rw [h] at hc
  cases hc

theorem IsRun.tail {c d : Char} {cs : List Char} (h : IsRun (c :: d :: cs)) : IsRun (d :: cs) :=
  ⟨List.cons_ne_nil _ _, (List.forall_mem_cons.mp h.2).2⟩

namespace Maximal

variable {pieces : List (List Char)}

theorem stretch {part : List (List Char)} (h : Maximal pieces) (hpart : part <:+: pieces) :
    Maximal part where
  cut piece hmem := h.cut piece (hpart.subset hmem)
  apart := List.IsChain.infix h.apart hpart

/-- A character in front makes a piece of its own, or the run that it touches longer. -/
theorem attach (h : Maximal pieces) (c : Char) : Maximal (attach c pieces) := by
  refine ⟨fun piece => isPiece_of_mem_attach h.cut, ?_⟩
  cases pieces with
  | nil => exact .singleton [c]
  | cons piece rest =>
    cases piece with
    | nil => simpa [IsRun] using h.cut [] (List.mem_cons_self ..)
    | cons d ds =>
      rw [Fragment.attach]
      split
      case isTrue hseparator =>
        refine .cons_cons ?_ h.apart
        rintro ⟨hfirst, hsecond⟩
        obtain hc | hd := Bool.or_eq_true_iff.mp hseparator
        · exact not_isRun_of_separator hc [] hfirst
        · exact not_isRun_of_separator hd ds hsecond
      case isFalse =>
        -- What follows touched the run before `c` came in front of it.
        obtain ⟨hnext, hrest⟩ := List.isChain_cons.mp h.apart
        exact List.isChain_cons.mpr
          ⟨fun next hmem hruns => hnext next hmem ⟨hruns.1.tail, hruns.2⟩, hrest⟩

/-- What follows a run starts with a separator. -/
theorem separator_of_run {piece : List Char} (h : Maximal (piece :: pieces)) (hrun : IsRun piece) :
    ∀ c ∈ pieces.flatten.head?, isSeparator c = true := by
  cases pieces with
  | nil => simp
  | cons next rest =>
    obtain ⟨c, hc, rfl⟩ | hnext := h.cut next (by simp)
    · intro d hd
      cases hd
      exact hc
    · exact absurd ⟨hrun, hnext⟩ (h.apart.rel_head? rfl)

/-- A text has no other cut of this kind than the one that is made. -/
theorem split_flatten (h : Maximal pieces) : split pieces.flatten = pieces := by
  induction pieces with
  | nil => rfl
  | cons piece rest ih =>
    have hrest := ih (h.stretch (List.suffix_cons piece rest).isInfix)
    rw [List.flatten_cons]
    obtain ⟨c, hc, rfl⟩ | hrun := h.cut piece (List.mem_cons_self ..)
    · rw [List.singleton_append, split, hrest, attach_separator hc]
    · rw [split_run hrun.1 hrun.2 (h.separator_of_run hrun), hrest]

end Maximal

theorem maximal_split (cs : List Char) : Maximal (split cs) := by
  induction cs with
  | nil => exact ⟨by simp [split], .nil⟩
  | cons c cs ih => exact ih.attach c

theorem map_text_place (p : Position) (pieces : List (List Char)) :
    ((place p pieces).map text).map String.toList = pieces := by
  induction pieces generalizing p with
  | nil => rfl
  | cons piece pieces ih =>
    rw [place, List.map_cons, List.map_cons, ih, String.toList_ofList]

theorem map_text_ofSource (file : Option String) (source : String) :
    ((ofSource file source).map text).map String.toList = split source.toList :=
  map_text_place _ _

theorem toList_join (texts : List String) :
    (String.join texts).toList = (texts.map String.toList).flatten := by
  rw [String.toList_join, List.flatMap_def]

/-- The texts of the fragments are the only cut of a source into separators and runs that do not
touch, and any stretch of them is cut again as before. -/
theorem ofSource_only_cut (file : Option String) (source : String) :
    (∀ texts : List String,
      String.join texts = source ∧ Maximal (texts.map String.toList) ↔
        texts = (ofSource file source).map text) ∧
    ∀ part, part <:+: ofSource file source → ∀ file' : Option String,
      (ofSource file' (String.join (part.map text))).map text = part.map text := by
  have hinjective := List.map_injective_iff.mpr fun a b => String.toList_injective
  refine ⟨fun texts => ⟨?_, ?_⟩, ?_⟩
  · rintro ⟨rfl, hmaximal⟩
    apply hinjective
    rw [map_text_ofSource, toList_join, hmaximal.split_flatten]
  · rintro rfl
    rw [map_text_ofSource, ← String.toList_inj, toList_join, map_text_ofSource,
      Fragment.split_flatten]
    exact ⟨rfl, maximal_split _⟩
  · intro part hpart file'
    have hmaximal : Maximal ((part.map text).map String.toList) := by
      refine (maximal_split source.toList).stretch ?_
      rw [← map_text_ofSource file]
      exact (hpart.map text).map String.toList
    apply hinjective
    rw [map_text_ofSource, toList_join, hmaximal.split_flatten]

/-- The inner fragments of a source, with two separators in a row and a run on either side. -/
theorem ofSource_only_cut_inner :
    [⟨"a", ⟨none, 1, 3⟩⟩, ⟨":", ⟨none, 1, 4⟩⟩, ⟨"\n", ⟨none, 1, 5⟩⟩, ⟨"éb", ⟨none, 2, 1⟩⟩] <:+:
        ofSource none "x;a:\néb c" ∧
      (ofSource none (String.join ["a", ":", "\n", "éb"])).map text = ["a", ":", "\n", "éb"] := by
  have hpart : [⟨"a", ⟨none, 1, 3⟩⟩, ⟨":", ⟨none, 1, 4⟩⟩, ⟨"\n", ⟨none, 1, 5⟩⟩,
      ⟨"éb", ⟨none, 2, 1⟩⟩] <:+: ofSource none "x;a:\néb c" := by decide +kernel
  exact ⟨hpart, (ofSource_only_cut none "x;a:\néb c").2 _ hpart none⟩

/-! ## Positions -/

/-- A fragment is placed behind the texts in front of it. -/
theorem position_of_place {p : Position} {pieces : List (List Char)} {front back : List Fragment}
    {fragment : Fragment} (h : place p pieces = front ++ fragment :: back) :
    fragment.position = p.after (String.join (front.map text)).toList := by
  induction front generalizing p pieces with
  | nil =>
    cases pieces with
    | nil => cases h
    | cons piece pieces =>
      obtain ⟨rfl, -⟩ := List.cons.inj h
      rfl
  | cons first front ih =>
    cases pieces with
    | nil => cases h
    | cons piece pieces =>
      obtain ⟨rfl, hrest⟩ := List.cons.inj h
      rw [ih hrest, List.map_cons, String.join_cons, String.toList_append, Position.after_append,
        String.toList_ofList]

/-- A fragment is positioned by the text in front of it: its line by the line ends there, its
column by what follows the last of them. -/
theorem position_by_text_before {file : Option String} {source : String}
    {front back : List Fragment} {fragment : Fragment} {before : List Char}
    (h : ofSource file source = front ++ fragment :: back)
    (hbefore : (String.join (front.map text)).toList = before) :
    fragment.position.file = file ∧
    fragment.position.line = 1 + before.count '\n' ∧
    ('\n' ∉ before → fragment.position.column = 1 + before.length) ∧
    ∀ lines line, before = lines ++ '\n' :: line → '\n' ∉ line →
      fragment.position.column = 1 + line.length := by
  have hposition : fragment.position = Position.behind file before := by
    rw [position_of_place h, hbefore, Position.start_after]
  rw [hposition]
  refine ⟨rfl, rfl, Position.behind_column_of_one_line file, ?_⟩
  rintro lines line rfl hline
  exact Position.behind_column_of_lines file lines hline

/-- A run that is opened behind a separator, on the third line. -/
theorem position_by_text_before_third_line :
    ofSource (some "t") "é\n\nab cd" =
        [⟨"é", ⟨some "t", 1, 1⟩⟩, ⟨"\n", ⟨some "t", 1, 2⟩⟩, ⟨"\n", ⟨some "t", 2, 1⟩⟩,
          ⟨"ab", ⟨some "t", 3, 1⟩⟩, ⟨" ", ⟨some "t", 3, 3⟩⟩] ++ ⟨"cd", ⟨some "t", 3, 4⟩⟩ :: [] ∧
      3 = 1 + "é\n\nab ".toList.count '\n' ∧ 4 = 1 + "ab ".toList.length := by
  have hsource : ofSource (some "t") "é\n\nab cd" =
      [⟨"é", ⟨some "t", 1, 1⟩⟩, ⟨"\n", ⟨some "t", 1, 2⟩⟩, ⟨"\n", ⟨some "t", 2, 1⟩⟩,
        ⟨"ab", ⟨some "t", 3, 1⟩⟩, ⟨" ", ⟨some "t", 3, 3⟩⟩] ++ ⟨"cd", ⟨some "t", 3, 4⟩⟩ :: [] := by
    decide +kernel
  have hbefore : (String.join ["é", "\n", "\n", "ab", " "]).toList = "é\n\nab ".toList := by
    decide +kernel
  obtain ⟨-, hline, -, hcolumn⟩ := position_by_text_before hsource hbefore
  exact ⟨hsource, hline, hcolumn "é\n".toList "ab ".toList (by decide +kernel) (by decide +kernel)⟩

/-! ## Character by character -/

/-- A scan on its way through a source: the fragments so far, the run that is still open, the
position where it was opened, and the position reached. -/
structure Scan where
  fragments : List Fragment
  run : List Char
  runStart : Position
  position : Position

namespace Scan

variable {s : Scan}

def start (file : Option String) : Scan := ⟨[], [], Position.start file, Position.start file⟩

/-- Where the open run starts, or would if the next character opened it. -/
def runPosition (s : Scan) : Position := if s.run = [] then s.position else s.runStart

/-- The fragments, with the open run as the last of them. -/
def flushed (s : Scan) : List Fragment :=
  if s.run = [] then s.fragments
  else s.fragments ++ [⟨String.ofList s.run, s.runStart⟩]

/-- A separator ends the open run and stands by itself; any other character goes to the run. -/
def step (s : Scan) (c : Char) : Scan :=
  if isSeparator c then
    { fragments := s.flushed ++ [⟨String.ofList [c], s.position⟩]
      run := []
      runStart := s.runStart
      position := s.position.advance c }
  else
    { fragments := s.fragments
      run := s.run ++ [c]
      runStart := s.runPosition
      position := s.position.advance c }

/-- The open run holds no separator, and it ends where the scan is. -/
structure InStep (s : Scan) : Prop where
  plain : ∀ c ∈ s.run, isSeparator c = false
  position_eq : s.position = s.runPosition.after s.run

theorem inStep_start (file : Option String) : (start file).InStep := ⟨by simp [start], rfl⟩

theorem InStep.step (h : s.InStep) (c : Char) : (s.step c).InStep := by
  rw [Scan.step]
  split
  case isTrue => exact ⟨by simp, rfl⟩
  case isFalse hc =>
    refine ⟨fun d hd => ?_, ?_⟩
    · obtain hd | hd := List.mem_append.mp hd
      · exact h.plain d hd
      · rw [List.mem_singleton.mp hd]
        exact Bool.eq_false_iff.mpr hc
    · have hposition := congrArg (·.advance c) h.position_eq
      simpa [runPosition] using hposition

/-- Before a separator or the end, the open run is a fragment. -/
theorem flushed_append_place (h : s.InStep) {cs : List Char}
    (hcs : ∀ c ∈ cs.head?, isSeparator c = true) :
    s.flushed ++ place s.position (split cs) =
      s.fragments ++ place s.runPosition (split (s.run ++ cs)) := by
  have hposition := h.position_eq
  rw [flushed]
  rw [runPosition] at hposition ⊢
  split
  case isTrue hrun => rw [hrun, List.nil_append]
  case isFalse hrun =>
    rw [if_neg hrun] at hposition
    rw [split_run hrun h.plain hcs, place, ← hposition, List.append_assoc, List.singleton_append]

/-- From any point on, a scan adds the fragments of the open run and the text behind it. -/
theorem flushed_foldl (h : s.InStep) (cs : List Char) :
    (cs.foldl step s).flushed = s.fragments ++ place s.runPosition (split (s.run ++ cs)) := by
  induction cs generalizing s with
  | nil =>
    have hend := @flushed_append_place s h [] (by simp)
    simpa [split, place] using hend
  | cons c cs ih =>
    rw [List.foldl_cons, ih (h.step c), step]
    split
    case isTrue hc =>
      have hflushed := @flushed_append_place s h (c :: cs) (by simpa using hc)
      rw [← hflushed, split, attach_separator hc]
      simp [place, runPosition]
    case isFalse => simp [runPosition]

end Scan

/-- The fragments of a source are those that a scan finds, one character at a time. -/
theorem flushed_scan_eq_ofSource (file : Option String) (source : String) :
    (source.toList.foldl Scan.step (Scan.start file)).flushed = ofSource file source :=
  Scan.flushed_foldl (Scan.inStep_start file) source.toList

end Fragment

end CheckedScript
