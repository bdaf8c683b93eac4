import CheckedScript.Proofs.Guards

/-!
Exit statuses over whole runs of calls on one counter. Each call allocates a status for every
command that it checks, one after the other, and ends at the first that it is refused. What a
failed call has been given by then stays given: the counter moves by one for each status and never
back, so the statuses of a run are the first ones in order, up to 255, and from the first refusal
on every call that needs a status is refused.

Main results:
* `taken_run`: the statuses of one call follow those of the calls before it.
* `statuses_never_reused`: what is handed out over a run, and who is refused.
-/

namespace CheckedScript.Script.Statuses

/-! ## Allocations -/

/-- An allocation for the check of a command, with the counter it finds. -/
structure Allocation where
  command : String
  before : Statuses

namespace Allocation

def outcome (allocation : Allocation) : Except CompileError Nat :=
  (allocation.before.allocate allocation.command).1

def after (allocation : Allocation) : Statuses :=
  (allocation.before.allocate allocation.command).2

/-- The status handed out, if the allocation is not refused. -/
def status? (allocation : Allocation) : Option Nat := allocation.outcome.toOption

end Allocation

/-- The allocations for the commands, one after the other up to the first that is refused. -/
def allocations (statuses : Statuses) : List String → List Allocation
  | [] => []
  | command :: commands =>
    ⟨command, statuses⟩ :: match statuses.allocate command with
      | (.ok _, statuses) => allocations statuses commands
      | (.error _, _) => []

theorem allocate_of_le {next : Nat} (h : next ≤ 255) (command : String) :
    allocate ⟨next⟩ command = (.ok next, ⟨next + 1⟩) :=
  if_pos h

theorem after_of_refused {allocation : Allocation} {e : CompileError}
    (h : allocation.outcome = .error e) : allocation.after = allocation.before := by
  rw [Allocation.outcome, allocate] at h
  rw [Allocation.after, allocate]
  by_cases hle : allocation.before.next ≤ 255
  · rw [if_pos hle] at h
    cases h
  · rw [if_neg hle]

theorem next_allocate_le {statuses : Statuses} (h : statuses.next ≤ 256) (command : String) :
    (statuses.allocate command).2.next ≤ 256 := by
  rw [allocate]
  split
  case isTrue hle => exact Nat.succ_le_succ hle
  case isFalse => exact h

/-- In 16 bits the counter does not wrap around. -/
theorem toNat_succ {next : Nat} (h : next ≤ 256) : (UInt16.ofNat next + 1).toNat = next + 1 := by
  have hlt : next + 1 < UInt16.size := Nat.lt_of_le_of_lt (Nat.succ_le_succ h) (by decide)
  rw [show (1 : UInt16) = UInt16.ofNat 1 from rfl, ← UInt16.ofNat_add,
    UInt16.toNat_ofNat_of_lt' hlt]

theorem next_before_le {statuses : Statuses} (h : statuses.next ≤ 256) {commands : List String}
    {allocation : Allocation} (hmem : allocation ∈ allocations statuses commands) :
    allocation.before.next ≤ 256 := by
  induction commands generalizing statuses with
  | nil => simp [allocations] at hmem
  | cons command commands ih =>
    have hnext := next_allocate_le h command
    rw [allocations, List.mem_cons] at hmem
    obtain rfl | hmem := hmem
    · exact h
    · split at hmem
      case h_1 heq =>
        rw [heq] at hnext
        exact ih hnext hmem
      case h_2 => cases hmem

/-- The statuses handed out follow each other, as long as there are any. -/
theorem filterMap_status_allocations {next : Nat} (h : next ≤ 256) (commands : List String) :
    (allocations ⟨next⟩ commands).filterMap Allocation.status? =
      List.range' next (min (256 - next) commands.length) := by
  induction commands generalizing next with
  | nil => simp [allocations]
  | cons command commands ih =>
    rw [allocations]
    obtain hle | rfl : next ≤ 255 ∨ next = 256 := by omega
    · have hstatus : Allocation.status? ⟨command, ⟨next⟩⟩ = some next := by
        rw [Allocation.status?, Allocation.outcome, allocate_of_le hle]
        rfl
      have hlength : min (256 - next) (commands.length + 1) =
          min (256 - (next + 1)) commands.length + 1 := by omega
      rw [List.filterMap_cons_some hstatus, allocate_of_le hle, ih (by omega), List.length_cons,
        hlength, List.range'_succ]
    · -- The first allocation is refused, and no other is tried.
      rfl

/-! ## Calls -/

/-- What can be asked of a counter: a status, the check of an imported command, or the checks of
the implicit commands. -/
inductive Call where
  | allocate (command : String)
  | importGuard (command indent : String)
  | preamble (implicit : List String) (indent : String)

inductive Answer where
  | status (status : Nat)
  | text (text : String)

namespace Call

def perform (statuses : Statuses) : Call → Except CompileError Answer × Statuses
  | allocate command => (statuses.allocate command).map (·.map .status) id
  | importGuard command indent => (Script.importGuard command indent statuses).map (·.map .text) id
  | preamble implicit indent => (Script.preamble implicit indent statuses).map (·.map .text) id

/-- The commands for which a call needs a status each. -/
def commands : Call → List String
  | allocate command => [command]
  | importGuard command _ => [command]
  | preamble implicit _ => implicit

/-- The answer to a call that shows these statuses, one for each command. -/
inductive Shows : Call → List Nat → Answer → Prop where
  | allocate (command : String) (status : Nat) :
      Shows (allocate command) [status] (.status status)
  | importGuard (command indent : String) (status : Nat) :
      Shows (importGuard command indent) [status]
        (.text (check command status (some (notFound command)) indent))
  | empty (indent : String) : Shows (preamble [] indent) [] (.text "")
  | preamble {implicit : List String} (indent : String) {statuses : List Nat}
      (nonempty : implicit ≠ []) (each : statuses.length = implicit.length) :
      Shows (preamble implicit indent) statuses
        (.text (preambleHeader implicit ++ "\n" ++ String.intercalate "\n\n"
          (List.zipWith (fun command status => check command status none indent)
            implicit statuses)))

theorem preamble_shows (implicit : List String) (indent : String) (next : Nat) :
    Shows (preamble implicit indent) (List.range' next implicit.length)
      (.text (if implicit.isEmpty then "" else preambleHeader implicit ++ "\n" ++
        String.intercalate "\n\n"
          ((Guard.numbered (fun _ => none) next implicit).map (Guard.text indent)))) := by
  cases implicit with
  | nil => exact .empty indent
  | cons command commands =>
    have hblocks : (Guard.numbered (fun _ => none) next (command :: commands)).map
        (Guard.text indent) = List.zipWith (fun command status => check command status none indent)
          (command :: commands) (List.range' next (command :: commands).length) := by
      rw [Guard.numbered, List.map_map, List.zipIdx_eq_zip_range', List.map_zip_eq_zipWith]
      rfl
    rw [hblocks]
    exact .preamble indent (List.cons_ne_nil _ _) List.length_range'

/-- A call that ends before 256 shows the next statuses; another one fails at the command that
would be given 256. The counter goes on behind what has been handed out. -/
theorem perform_cases {next : Nat} (h : next ≤ 256) (call : Call) :
    (∃ answer, next + call.commands.length ≤ 256 ∧
      call.perform ⟨next⟩ = (.ok answer, ⟨next + call.commands.length⟩) ∧
      call.Shows (List.range' next call.commands.length) answer) ∨
    ∃ command, 256 < next + call.commands.length ∧ call.commands[256 - next]? = some command ∧
      call.perform ⟨next⟩ = (.error (noStatus command), ⟨256⟩) := by
  cases call with
  | allocate command =>
    obtain hle | rfl : next ≤ 255 ∨ next = 256 := by omega
    · refine .inl ⟨.status next, Nat.succ_le_succ hle, ?_, .allocate command next⟩
      rw [perform, allocate_of_le hle]
      rfl
    · exact .inr ⟨command, Nat.lt_succ_self 256, rfl, rfl⟩
  | importGuard command indent =>
    obtain hle | rfl : next ≤ 255 ∨ next = 256 := by omega
    · refine .inl ⟨_, Nat.succ_le_succ hle, ?_, .importGuard command indent next⟩
      rw [perform, Script.importGuard, allocate_of_le hle]
      rfl
    · exact .inr ⟨command, Nat.lt_succ_self 256, rfl, rfl⟩
  | preamble implicit indent =>
    rw [perform, Script.preamble, checks_eq indent h, commands]
    by_cases hlength : implicit.length ≤ 256 - next
    · refine .inl ⟨_, by omega, ?_, preamble_shows implicit indent next⟩
      rw [written_of_le hlength, Nat.min_eq_right (by omega)]
      rfl
    · have hlt : 256 - next < implicit.length := by omega
      refine .inr ⟨implicit[256 - next], by omega, List.getElem?_eq_getElem hlt, ?_⟩
      rw [written, List.getElem?_eq_getElem hlt, Nat.min_eq_left (by omega)]
      rfl

end Call

/-! ## Runs -/

/-- A call in a run, with the counter it finds. -/
structure Step where
  call : Call
  before : Statuses

namespace Step

def outcome (step : Step) : Except CompileError Answer := (step.call.perform step.before).1

def after (step : Step) : Statuses := (step.call.perform step.before).2

def allocations (step : Step) : List Allocation := step.before.allocations step.call.commands

/-- The statuses that are handed out to the call, whether or not it fails in the end. -/
def taken (step : Step) : List Nat := step.allocations.filterMap Allocation.status?

def Fails (step : Step) : Prop := ∃ e, step.outcome = .error e

variable {step : Step} (h : step.before.next ≤ 256)
include h

theorem taken_eq :
    step.taken = List.range' step.before.next
      (min (256 - step.before.next) step.call.commands.length) :=
  filterMap_status_allocations h step.call.commands

theorem take_taken (n : Nat) :
    step.taken.take n = List.range' step.before.next
      (min n (min (256 - step.before.next) step.call.commands.length)) := by
  rw [taken_eq h]
  obtain hle | hge :=
    Nat.le_total n (min (256 - step.before.next) step.call.commands.length)
  · rw [Nat.min_eq_left hle, List.take_range'_of_length_ge hle]
  · rw [Nat.min_eq_right hge, List.take_range'_of_length_le hge]

theorem length_taken :
    step.taken.length = min (256 - step.before.next) step.call.commands.length := by
  rw [taken_eq h, List.length_range']

theorem next_after : step.after.next = step.before.next + step.taken.length := by
  rw [length_taken h, after]
  obtain ⟨answer, hle, heq, -⟩ | ⟨command, hlt, -, heq⟩ := step.call.perform_cases h
  · rw [heq, Nat.min_eq_right (by omega)]
  · rw [heq, Nat.min_eq_left (by omega)]
    exact (Nat.add_sub_cancel' h).symm

theorem next_after_eq : step.after.next =
    step.before.next + min (256 - step.before.next) step.call.commands.length := by
  rw [next_after h, length_taken h]

theorem fails_iff : step.Fails ↔ 256 < step.before.next + step.call.commands.length := by
  rw [Fails, outcome]
  obtain ⟨answer, hle, heq, -⟩ | ⟨command, hlt, -, heq⟩ := step.call.perform_cases h
  · rw [heq]
    simp [hle]
  · rw [heq]
    exact iff_of_true ⟨_, rfl⟩ hlt

theorem shows_of_outcome {answer : Answer} (hok : step.outcome = .ok answer) :
    step.call.Shows step.taken answer := by
  rw [outcome] at hok
  obtain ⟨answer', hle, heq, hshows⟩ | ⟨command, -, -, heq⟩ := step.call.perform_cases h
  · rw [heq] at hok
    rw [taken_eq h, Nat.min_eq_right (by omega), ← Except.ok.inj hok]
    exact hshows
  · rw [heq] at hok
    cases hok

/-- The error names the first command that is given no status. -/
theorem error_of_outcome {e : CompileError} (herror : step.outcome = .error e) :
    (step.call.commands[step.taken.length]?).map noStatus = some e := by
  rw [outcome] at herror
  obtain ⟨answer, -, heq, -⟩ | ⟨command, hlt, hcommand, heq⟩ := step.call.perform_cases h
  · rw [heq] at herror
    cases herror
  · rw [heq] at herror
    rw [length_taken h, Nat.min_eq_left (by omega), hcommand, ← Except.error.inj herror]
    rfl

end Step

def run (statuses : Statuses) : List Call → List Step
  | [] => []
  | call :: calls => ⟨call, statuses⟩ :: run (Step.after ⟨call, statuses⟩) calls

/-- The counter at the end of a run. -/
def final (statuses : Statuses) (calls : List Call) : Statuses :=
  calls.foldl (fun statuses call => Step.after ⟨call, statuses⟩) statuses

/-- The commands for which the calls need a status. -/
def needed (calls : List Call) : List String := calls.flatMap Call.commands

theorem length_needed_cons (call : Call) (calls : List Call) :
    (needed (call :: calls)).length = call.commands.length + (needed calls).length := by
  rw [needed, List.flatMap_cons, List.length_append, needed]

theorem next_final {statuses : Statuses} (h : statuses.next ≤ 256) (calls : List Call) :
    (final statuses calls).next = min 256 (statuses.next + (needed calls).length) := by
  induction calls generalizing statuses with
  | nil => exact (Nat.min_eq_right h).symm
  | cons call calls ih =>
    have hafter : (Step.after ⟨call, statuses⟩).next =
        statuses.next + min (256 - statuses.next) call.commands.length := Step.next_after_eq h
    rw [final, List.foldl_cons, ← final, ih (by omega), hafter, length_needed_cons]
    omega

/-- The statuses of one call follow those of the calls before it. -/
theorem taken_run {statuses : Statuses} (h : statuses.next ≤ 256) (calls : List Call) :
    (run statuses calls).flatMap Step.taken =
      List.range' statuses.next (min (256 - statuses.next) (needed calls).length) := by
  induction calls generalizing statuses with
  | nil => simp [run, needed]
  | cons call calls ih =>
    have hafter : (Step.after ⟨call, statuses⟩).next =
        statuses.next + min (256 - statuses.next) call.commands.length := Step.next_after_eq h
    have hlength : min (256 - statuses.next) (needed (call :: calls)).length =
        min (256 - statuses.next) call.commands.length +
          min (256 - (Step.after ⟨call, statuses⟩).next) (needed calls).length := by
      rw [length_needed_cons, hafter]
      omega
    rw [run, List.flatMap_cons, Step.taken_eq h, ih (by omega), hafter, List.range'_append_1,
      hlength, hafter]

/-- A step of a run starts from the counter at the end of the run of the calls before it. -/
theorem run_eq_append_cons {statuses : Statuses} {calls : List Call} {done rest : List Step}
    {step : Step} (h : run statuses calls = done ++ step :: rest) :
    ∃ earlier later, done = run statuses earlier ∧ step.before = final statuses earlier ∧
      rest = run step.after later := by
  induction done generalizing statuses calls with
  | nil =>
    cases calls with
    | nil => cases h
    | cons call calls =>
      obtain ⟨rfl, rfl⟩ := List.cons.inj h
      exact ⟨[], calls, rfl, rfl, rfl⟩
  | cons first done ih =>
    cases calls with
    | nil => cases h
    | cons call calls =>
      obtain ⟨rfl, htail⟩ := List.cons.inj h
      obtain ⟨earlier, later, rfl, hbefore, hrest⟩ := ih htail
      exact ⟨call :: earlier, later, rfl, hbefore, hrest⟩

/-- Behind 256 no call gets a status. -/
theorem fails_of_mem_run {statuses : Statuses} (h : statuses.next = 256) {calls : List Call}
    {step : Step} (hmem : step ∈ run statuses calls) (hneeds : step.call.commands ≠ []) :
    step.Fails := by
  obtain ⟨done, rest, hrun⟩ := List.append_of_mem hmem
  obtain ⟨earlier, -, -, hbefore, -⟩ := run_eq_append_cons hrun
  have hnext : step.before.next = 256 := by
    rw [hbefore, next_final (by omega), h]
    omega
  have hpos := List.length_pos_iff.mpr hneeds
  exact (Step.fails_iff (by omega)).mpr (by omega)

/-- Whether 255 has been handed out once a call of the run has asked for `n` statuses. -/
theorem mem_taken_iff {first : Nat} (hfirst : first ≤ 255) {calls : List Call}
    {done rest : List Step} {step : Step} (hrun : run ⟨first⟩ calls = done ++ step :: rest)
    (n : Nat) :
    255 ∈ done.flatMap Step.taken ++ step.taken.take n ↔
      256 ≤ step.before.next + min n step.call.commands.length := by
  obtain ⟨earlier, -, rfl, hbefore, -⟩ := run_eq_append_cons hrun
  have hstart : (⟨first⟩ : Statuses).next ≤ 256 := Nat.le_succ_of_le hfirst
  have hnext : step.before.next = min 256 (first + (needed earlier).length) := by
    rw [hbefore, next_final hstart]
  -- Earlier calls have been given 255 exactly if this one finds the counter at 256.
  rw [taken_run hstart, Step.take_taken (by omega), List.mem_append, List.mem_range'_1,
    List.mem_range'_1]
  dsimp only
  omega

/-- What is handed out over a run is the first status and those after it, one for each command, up
to 255. A call fails exactly if it needs a status after 255 has been handed out; its error names
the first command that is given none, and all later calls that need a status fail too. The answer
to another call shows the statuses it was handed. The counter moves by one for each status that is
handed out, in failed calls too, stands still if an allocation is refused, and never exceeds 256,
so that it fits in 16 bits. -/
theorem statuses_never_reused (first : UInt8) (calls : List Call) :
    (run (startingAt first) calls).flatMap Step.taken =
      List.range' first.toNat (min (256 - first.toNat) (needed calls).length) ∧
    (∀ status ∈ (run (startingAt first) calls).flatMap Step.taken, status ≤ 255) ∧
    ∀ done step rest, run (startingAt first) calls = done ++ step :: rest →
      (step.Fails ↔ ∃ n < step.call.commands.length,
        255 ∈ done.flatMap Step.taken ++ step.taken.take n) ∧
      (step.Fails → ∀ later ∈ rest, later.call.commands ≠ [] → later.Fails) ∧
      (∀ e, step.outcome = .error e →
        (step.call.commands[step.taken.length]?).map noStatus = some e) ∧
      (∀ answer, step.outcome = .ok answer → step.call.Shows step.taken answer) ∧
      step.after.next = step.before.next + step.taken.length ∧
      step.before.next ≤ 256 ∧ step.after.next ≤ 256 ∧
      ∀ allocation ∈ step.allocations,
        (∀ e, allocation.outcome = .error e → allocation.after = allocation.before) ∧
        allocation.before.next ≤ 256 ∧ allocation.after.next ≤ 256 ∧
        (UInt16.ofNat allocation.before.next + 1).toNat = allocation.before.next + 1 := by
  have hfirst : first.toNat ≤ 255 := Nat.le_of_lt_succ first.toNat_lt
  have hstart : (startingAt first).next ≤ 256 := Nat.le_succ_of_le hfirst
  refine ⟨taken_run hstart calls, fun status hmem => ?_, fun done step rest hrun => ?_⟩
  · rw [taken_run hstart calls, List.mem_range'_1] at hmem
    have hnext : (startingAt first).next = first.toNat := rfl
    omega
  obtain ⟨earlier, later, -, hbefore, hrest⟩ := run_eq_append_cons hrun
  have hnext : step.before.next ≤ 256 := by
    rw [hbefore, next_final hstart]
    exact Nat.min_le_left _ _
  refine ⟨?_, fun hfails other hother hneeds => ?_, fun e => Step.error_of_outcome hnext,
    fun answer => Step.shows_of_outcome hnext, Step.next_after hnext, hnext, ?_,
    fun allocation hmem => ?_⟩
  · rw [Step.fails_iff hnext]
    simp only [mem_taken_iff hfirst hrun]
    constructor
    · -- It is refused at the latest when it asks for its last status.
      intro hlt
      exact ⟨step.call.commands.length - 1, by omega, by omega⟩
    · rintro ⟨n, hn, hle⟩
      omega
  · -- A call that fails leaves the counter at 256.
    have hafter : step.after.next = 256 := by
      have hlt := (Step.fails_iff hnext).mp hfails
      rw [Step.next_after_eq hnext]
      omega
    rw [hrest] at hother
    exact fails_of_mem_run hafter hother hneeds
  · rw [Step.next_after_eq hnext]
    omega
  · have hle := next_before_le hnext hmem
    exact ⟨fun e => after_of_refused, hle, next_allocate_le hle allocation.command,
      toNat_succ hle⟩

/-- A call that is refused its second status, and the calls after it. -/
theorem statuses_never_reused_behind_failed_preamble :
    let calls : List Call :=
      [.importGuard "ls" "  ", .preamble ["cp", "mv"] "  ", .preamble [] "", .allocate "rm"]
    let failed : Step := ⟨.preamble ["cp", "mv"] "  ", ⟨255⟩⟩
    let last : Step := ⟨.allocate "rm", ⟨256⟩⟩
    run (startingAt 254) calls =
        [⟨.importGuard "ls" "  ", ⟨254⟩⟩] ++ failed :: [⟨.preamble [] "", ⟨256⟩⟩, last] ∧
      (run (startingAt 254) calls).flatMap Step.taken = [254, 255] ∧
      failed.outcome = .error (noStatus "mv") ∧ failed.taken = [255] ∧
      failed.after.next = failed.before.next + 1 ∧ last.Fails ∧
      ∃ allocation ∈ failed.allocations, allocation.outcome = .error (noStatus "mv") ∧
        allocation.after = allocation.before ∧ allocation.after.next ≤ 256 := by
  intro calls failed last
  have hrun : run (startingAt 254) calls =
      [⟨.importGuard "ls" "  ", ⟨254⟩⟩] ++ failed :: [⟨.preamble [] "", ⟨256⟩⟩, last] := rfl
  have hfailed : failed.outcome = .error (noStatus "mv") := rfl
  obtain ⟨htaken, -, hsteps⟩ := statuses_never_reused 254 calls
  obtain ⟨-, hlater, -, -, hafter, -, -, hallocations⟩ := hsteps _ _ _ hrun
  have hmem : (⟨"mv", ⟨256⟩⟩ : Allocation) ∈ failed.allocations := .tail _ (.head _)
  obtain ⟨hrefused, -, hle, -⟩ := hallocations _ hmem
  have hlast : last.Fails := hlater ⟨_, hfailed⟩ last (by simp) (List.cons_ne_nil _ _)
  exact ⟨hrun, htaken, hfailed, rfl, hafter, hlast, _, hmem, rfl, hrefused _ rfl, hle⟩

end CheckedScript.Script.Statuses
