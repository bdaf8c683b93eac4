import CheckedScript.Script

/-!
The guards of a script: one for each implicit command, then one for each further command that is
imported, numbered from the first status. They are written exactly if the last of them has a status
up to 255, and otherwise the error names the first command that has none.

Main results:
* `guardSections_eq`: the sections of the checks, or the error.
* `intercalate_checkSections`: their text, block by block.
-/

namespace CheckedScript.Script

/-! ## Which commands are guarded -/

/-- The imported commands without the implicit ones, each where it is first imported. -/
def importedOnly (implicit : List String) (imports : List Import) : List String :=
  ((imports.map (·.name)).filter (· ∉ implicit)).eraseDups

/-- Names already collected are passed over like the implicit ones. -/
theorem foldl_guardedNames (implicit names collected : List String) :
    names.foldl (fun names name => if implicit.contains name || names.contains name then names
      else names ++ [name]) collected =
    collected ++ (names.filter fun name => name ∉ implicit ∧ name ∉ collected).eraseDups := by
  induction names generalizing collected with
  | nil => simp
  | cons name rest ih =>
    rw [List.foldl_cons, ih]
    by_cases himplicit : name ∈ implicit
    · simp [himplicit]
    · by_cases hcollected : name ∈ collected
      · simp [hcollected]
      · -- A new name: what comes after it is kept only if it differs from this one too.
        have hfilter : ∀ other, (decide (other ∉ implicit ∧ other ∉ collected ++ [name])) =
            (!other == name && decide (other ∉ implicit ∧ other ∉ collected)) := by
          intro other
          by_cases h : other = name <;> simp [h]
        simp only [List.contains_eq_mem, himplicit, hcollected, decide_false, Bool.or_self,
          Bool.false_eq_true, if_false, hfilter, List.append_assoc, List.singleton_append]
        rw [List.filter_cons_of_pos (by simp [himplicit, hcollected]), List.eraseDups_cons,
          List.filter_filter]

theorem guardedNames_eq (implicit : List String) (imports : List Import) :
    guardedNames implicit imports = importedOnly implicit imports := by
  rw [guardedNames, foldl_guardedNames, List.nil_append, importedOnly]
  congr 2
  simp

/-! ## Guards with their statuses -/

/-- The check for a command, with the status it exits with and what it echoes. -/
structure Guard where
  command : String
  status : Nat
  message : Option String

namespace Guard

def text (indent : String) (guard : Guard) : String :=
  check guard.command guard.status guard.message indent

/-- Guards for the commands, their statuses counted up from `first`. -/
def numbered (message : String → Option String) (first : Nat) (commands : List String) :
    List Guard :=
  (commands.zipIdx first).map fun (command, status) => ⟨command, status, message command⟩

variable (message : String → Option String)

theorem map_command_numbered (first : Nat) (commands : List String) :
    (numbered message first commands).map command = commands := by
  rw [numbered, List.map_map]
  exact List.zipIdx_map_fst first commands

theorem map_status_numbered (first : Nat) (commands : List String) :
    (numbered message first commands).map status = List.range' first commands.length := by
  rw [numbered, List.map_map]
  exact List.zipIdx_map_snd first commands

end Guard

/-- What the check of an imported command echoes. -/
def notFound (command : String) : String :=
  "imported command " ++ command ++ " could not be found"

/-- The error of a guard for which no status is left. -/
def noStatus (command : String) : CompileError := .generation (.noStatusLeft command) none

/-- The blocks of numbered guards, or the error of the one whose status would be 256. -/
def written (message : String → Option String) (indent : String) (first : Nat)
    (commands : List String) : Except CompileError (List String) :=
  match commands[256 - first]? with
  | none => .ok ((Guard.numbered message first commands).map (Guard.text indent))
  | some command => .error (noStatus command)

theorem written_of_le {message : String → Option String} {indent : String} {first : Nat}
    {commands : List String} (h : commands.length ≤ 256 - first) :
    written message indent first commands =
      .ok ((Guard.numbered message first commands).map (Guard.text indent)) := by
  rw [written, List.getElem?_eq_none h]

theorem written_cons {message : String → Option String} {indent : String} {first : Nat}
    (h : first ≤ 255) (command : String) (commands : List String) :
    written message indent first (command :: commands) =
      (written message indent (first + 1) commands).map
        (check command first (message command) indent :: ·) := by
  have hindex : 256 - first = 256 - (first + 1) + 1 := by omega
  rw [written, written, hindex, List.getElem?_cons_succ]
  cases commands[256 - (first + 1)]? <;> rfl

theorem checks_eq (indent : String) {first : Nat} (h : first ≤ 256) (commands : List String) :
    checks indent ⟨first⟩ commands =
      (written (fun _ => none) indent first commands, ⟨min 256 (first + commands.length)⟩) := by
  induction commands generalizing first with
  | nil => simp [checks, written, Guard.numbered, h]
  | cons command commands ih =>
    rw [checks]
    obtain hle | rfl : first ≤ 255 ∨ first = 256 := by omega
    · rw [written_cons hle, Statuses.allocate, if_pos hle]
      dsimp only
      rw [ih (by omega), List.length_cons, Nat.add_assoc, Nat.add_comm 1]
    · rw [List.length_cons, Nat.min_eq_left (by omega)]
      rfl

theorem importGuards_eq (indent : String) {first : Nat} (h : first ≤ 256)
    (commands : List String) :
    importGuards indent ⟨first⟩ commands = written (some ∘ notFound) indent first commands := by
  induction commands generalizing first with
  | nil => rfl
  | cons command commands ih =>
    rw [importGuards, importGuard]
    obtain hle | rfl : first ≤ 255 ∨ first = 256 := by omega
    · rw [written_cons hle, Statuses.allocate, if_pos hle]
      dsimp only
      rw [ih (by omega)]
      rfl
    · rfl

/-! ## The sections of the guards -/

/-- The guards of a script: those of the implicit commands, then those of the imports. -/
def guards (options : Options) (imports : List Import) : List Guard :=
  let first := options.firstStatus.toNat
  Guard.numbered (fun _ => none) first options.implicit ++
    Guard.numbered (some ∘ notFound) (first + options.implicit.length)
      (importedOnly options.implicit imports)

/-- Each guard is a section, but those of the implicit commands share one, below a line that
names them. -/
def checkSections (options : Options) (imports : List Import) : List String :=
  let blocks := (guards options imports).map (Guard.text options.indent)
  match options.implicit with
  | [] => blocks
  | implicit => (preambleHeader implicit ++ "\n" ++
      String.intercalate "\n\n" (blocks.take implicit.length)) :: blocks.drop implicit.length

theorem map_command_guards (options : Options) (imports : List Import) :
    (guards options imports).map Guard.command =
      options.implicit ++ importedOnly options.implicit imports := by
  rw [guards, List.map_append, Guard.map_command_numbered, Guard.map_command_numbered]

theorem map_status_guards (options : Options) (imports : List Import) :
    (guards options imports).map Guard.status =
      List.range' options.firstStatus.toNat
        (options.implicit.length + (importedOnly options.implicit imports).length) := by
  rw [guards, List.map_append, Guard.map_status_numbered, Guard.map_status_numbered,
    List.range'_append_1]

theorem message_of_guards {options : Options} {imports : List Import} {i : Nat} {guard : Guard}
    (h : (guards options imports)[i]? = some guard) :
    guard.message =
      if i < options.implicit.length then none else some (notFound guard.command) := by
  have hlength : (Guard.numbered (fun _ => none) options.firstStatus.toNat
      options.implicit).length = options.implicit.length := by
    rw [Guard.numbered, List.length_map, List.length_zipIdx]
  rw [guards] at h
  by_cases hi : i < options.implicit.length
  · rw [List.getElem?_append_left (by omega), Guard.numbered, List.getElem?_map] at h
    obtain ⟨_, -, rfl⟩ := Option.map_eq_some_iff.mp h
    exact (if_pos hi).symm
  · rw [List.getElem?_append_right (by omega), Guard.numbered, List.getElem?_map] at h
    obtain ⟨_, -, rfl⟩ := Option.map_eq_some_iff.mp h
    exact (if_neg hi).symm

/-- The section of the implicit commands, if there are any, and the sections of the imports. -/
theorem checkSections_eq (options : Options) (imports : List Import) :
    let first := options.firstStatus.toNat
    let text := if options.implicit.isEmpty then "" else
      preambleHeader options.implicit ++ "\n" ++ String.intercalate "\n\n"
        ((Guard.numbered (fun _ => none) first options.implicit).map (Guard.text options.indent))
    checkSections options imports = (if text.isEmpty then [] else [text]) ++
      (Guard.numbered (some ∘ notFound) (first + options.implicit.length)
        (importedOnly options.implicit imports)).map (Guard.text options.indent) := by
  dsimp only
  rw [checkSections, guards, List.map_append]
  split
  case h_1 himplicit => rw [himplicit]; rfl
  case h_2 hne =>
    have hempty : ∀ text : String,
        (preambleHeader options.implicit ++ "\n" ++ text).isEmpty = false := by
      intro text
      rw [Bool.eq_false_iff, ne_eq, String.isEmpty_iff]
      simp [String.append_eq_empty_iff]
    have hlength : options.implicit.length = ((Guard.numbered (fun _ => none)
        options.firstStatus.toNat options.implicit).map (Guard.text options.indent)).length := by
      rw [Guard.numbered, List.length_map, List.length_map, List.length_zipIdx]
    have hsome : options.implicit.isEmpty = false := by simpa using hne
    simp only [hsome, hempty, Bool.false_eq_true, if_false]
    rw [List.take_left' hlength.symm, List.drop_left' hlength.symm, List.singleton_append]

/-- Texts that are joined first are joined with the others. -/
theorem intercalate_joined (separator : String) (front back : List String) {texts : List String}
    (h : texts ≠ []) :
    String.intercalate separator (front ++ String.intercalate separator texts :: back) =
      String.intercalate separator (front ++ (texts ++ back)) := by
  have hback : String.intercalate separator (String.intercalate separator texts :: back) =
      String.intercalate separator (texts ++ back) := by
    by_cases hnil : back = []
    · rw [hnil, String.intercalate_singleton, List.append_nil]
    · rw [String.intercalate_cons_of_ne_nil hnil, String.intercalate_append_of_ne_nil h hnil]
  by_cases hfront : front = []
  · rw [hfront, List.nil_append, List.nil_append, hback]
  · rw [String.intercalate_append_of_ne_nil hfront (by simp),
      String.intercalate_append_of_ne_nil hfront (by simp [h]), hback]

/-- Joined with other texts, the sections are the blocks of the guards, the first below the line
that names the implicit commands. -/
theorem intercalate_checkSections (options : Options) (imports : List Import)
    (front back : List String) :
    String.intercalate "\n\n" (front ++ checkSections options imports ++ back) =
      String.intercalate "\n\n" (front ++
        ((guards options imports).map (Guard.text options.indent)).modifyHead
          ((if options.implicit.isEmpty then "" else preambleHeader options.implicit ++ "\n") ++ ·)
        ++ back) := by
  rw [checkSections]
  split
  case h_1 himplicit =>
    have hid : ∀ text, (if options.implicit.isEmpty then "" else
        preambleHeader options.implicit ++ "\n") ++ text = text := by simp [himplicit]
    simp only [hid]
    cases guards options imports <;> rfl
  case h_2 hne =>
    have hne : options.implicit ≠ [] := hne
    have hsome : options.implicit.isEmpty = false := by simpa using hne
    obtain ⟨n, hn⟩ := Nat.exists_eq_add_one.mpr (List.length_pos_iff.mpr hne)
    obtain ⟨block, blocks, hblocks⟩ : ∃ block blocks,
        (guards options imports).map (Guard.text options.indent) = block :: blocks := by
      refine List.exists_cons_of_ne_nil ?_
      simp [guards, Guard.numbered, hne]
    have hheaded : ∀ (line : String) (rest : List String),
        line ++ String.intercalate "\n\n" (block :: rest) =
          String.intercalate "\n\n" ((line ++ block) :: rest) := by
      intro line rest
      cases rest <;> simp [String.intercalate_cons_cons, String.append_assoc]
    rw [hblocks, hn, hsome, List.take_succ_cons, List.drop_succ_cons, hheaded, List.append_assoc,
      List.cons_append, intercalate_joined _ _ _ (List.cons_ne_nil _ _), List.cons_append,
      ← List.append_assoc (blocks.take n), List.take_append_drop, List.append_assoc]
    rfl

/-- The checks are written unless there is a command whose status would be 256. -/
theorem guardSections_eq (options : Options) (imports : List Import) :
    guardSections options imports =
      match (options.implicit ++ importedOnly options.implicit imports)[
        256 - options.firstStatus.toNat]? with
      | none => .ok (checkSections options imports)
      | some command => .error (noStatus command) := by
  have hfirst : options.firstStatus.toNat < 256 := options.firstStatus.toNat_lt
  rw [checkSections_eq, guardSections, preamble, Statuses.startingAt]
  generalize options.firstStatus.toNat = first at hfirst
  rw [checks_eq _ (by omega), guardedNames_eq]
  dsimp only
  -- The status may run out among the implicit commands, or behind them.
  by_cases hlength : options.implicit.length ≤ 256 - first
  · rw [written_of_le hlength, List.getElem?_append_right hlength, Nat.min_eq_right (by omega)]
    dsimp only [Except.map]
    rw [importGuards_eq _ (by omega), written, Nat.sub_sub]
    cases (importedOnly options.implicit imports)[256 - (first + options.implicit.length)]? <;> rfl
  · have hlt : 256 - first < options.implicit.length := by omega
    rw [written, List.getElem?_append_left hlt, List.getElem?_eq_getElem hlt]
    rfl

theorem guardSections_eq_ok {options : Options} {imports : List Import} {texts : List String}
    (h : guardSections options imports = .ok texts) :
    options.firstStatus.toNat + options.implicit.length
      + (importedOnly options.implicit imports).length ≤ 256 ∧
      texts = checkSections options imports := by
  have hfirst : options.firstStatus.toNat < 256 := options.firstStatus.toNat_lt
  rw [guardSections_eq] at h
  split at h
  case h_1 hnone =>
    rw [List.getElem?_eq_none_iff, List.length_append] at hnone
    exact ⟨by omega, (Except.ok.inj h).symm⟩
  case h_2 => cases h

end CheckedScript.Script
