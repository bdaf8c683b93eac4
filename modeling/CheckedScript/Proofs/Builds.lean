import CheckedScript.CommandLine
import CheckedScript.Proofs.Files
import CheckedScript.Proofs.Reports

/-!
How a build ends and what it leaves in the file tree. `Ending` says once which ways there are. Until
the script is written a build has touched nothing but its log and the directories on the way to it,
and the log has one more record exactly if the build came to compile its source.

Main results:
* `ending_of_build`: every build ends in one of these ways.
* `Ending.logged`: what it leaves behind besides its log.
* `failed_build_keeps_to_log`: a build that fails or dumps leaves nothing else, and what becomes of
  the log.
* `output_replaces_record`: a build into its own log leaves no record.

All this holds of any `Packages`. What the machine itself does is that of `FileTree`: a build is
alone on it, and a write that fails leaves the file as it was.
-/

namespace CheckedScript.CommandLine

/-! ## The state of a build -/

/-- Whether tokens or tree are asked for in place of a script. -/
def BuildOptions.dumps (options : BuildOptions) : Bool := options.dumpTokens || options.dumpAst

/-- Where the script goes. -/
def BuildOptions.outputPath (options : BuildOptions) (input : String) : String :=
  options.output.getD (Path.withExtension input "sh")

/-- The state in which a build reads its source. -/
def opened (machine : Machine) (common : Common) (logPath : Option String) : State :=
  openLog machine.files (Log.Level.ofVerbosity (common.verbosity.getD 0)) logPath
    machine.packages.format

namespace State

/-- Two states keep the same build log. -/
structure SameLog (state other : State) : Prop where
  files : state.files = other.files
  buildLog : state.buildLog = other.buildLog
  format : state.format = other.format

theorem SameLog.trans {first second third : State} (h : first.SameLog second)
    (h' : second.SameLog third) : first.SameLog third :=
  ⟨h.files.trans h'.files, h.buildLog.trans h'.buildLog, h.format.trans h'.format⟩

theorem sameLog_log {entry : Log.Entry} (h : entry.origin ≠ .buildRecord) (state : State) :
    (state.log entry).SameLog state := by
  rw [log, if_neg h]
  split <;> exact ⟨rfl, rfl, rfl⟩

theorem sameLog_logAll {entries : List Log.Entry}
    (h : ∀ entry ∈ entries, entry.origin ≠ .buildRecord) (state : State) :
    (state.logAll entries).SameLog state := by
  induction entries generalizing state with
  | nil => exact ⟨rfl, rfl, rfl⟩
  | cons entry entries ih =>
    obtain ⟨hfirst, hrest⟩ := List.forall_mem_cons.mp h
    exact (ih hrest (state.log entry)).trans (sameLog_log hfirst state)

/-- What a log entry does to the files depends on the build log alone. -/
theorem SameLog.files_log {state other : State} (h : state.SameLog other) (entry : Log.Entry) :
    (state.log entry).files = (other.log entry).files := by
  by_cases hentry : entry.origin = .buildRecord
  · rw [log, log, if_pos hentry, if_pos hentry, h.buildLog, h.files, h.format]
    cases other.buildLog with
    | none => exact h.files
    | some path =>
      dsimp only
      cases other.files.append path (other.format.record entry ++ "\n") with
      | ok files => rfl
      | error fault => exact h.files
  · rw [(sameLog_log hentry state).files, (sameLog_log hentry other).files, h.files]

theorem extends_log (state : State) (entry : Log.Entry) :
    state.files.Extends (state.log entry).files := by
  unfold log
  split
  · split
    · exact .refl _
    · split
      case h_1 files happend =>
        obtain ⟨location, -, hfile, rfl⟩ := FileTree.change_eq_ok happend
        dsimp only
        exact FileTree.extends_changed hfile _
      case h_2 => exact .refl _
  · split <;> exact .refl _

end State

/-- A machine with one file, called `a.bk`, and a home directory that is yet to be made. -/
def Machine.ofSource (source : String) : Machine where
  environment := [("HOME", "/home")]
  files := { entries := [(["a.bk"], .file source.toUTF8 false)] }

/-! ## Endings -/

/-- The build reads its source and compiles it, with this result. -/
structure Compiles (machine : Machine) (common : Common) (input : String) (options : BuildOptions)
    (config : Config) (logPath : Option String) (source : String)
    (result : Except CompileError String) : Prop where
  configured : buildConfig machine common options = .ok (config, logPath)
  reads : (opened machine common logPath).files.readText input = .ok source
  undumped : options.dumps = false
  result_eq :
    (Compiler.compileBy machine.packages.valid config (some input) source).result = result

/-- The files once the compilation of `input` has been recorded. -/
def recorded (machine : Machine) (common : Common) (logPath : Option String) (input : String)
    (result : Except CompileError String) : FileTree :=
  ((opened machine common logPath).log (recordEntry input result)).files

/-- The ways in which a build ends: its status and its files. -/
inductive Ending (machine : Machine) (common : Common) (input : String) (options : BuildOptions) :
    Nat → FileTree → Prop
  | misconfigured {e : ConfigError} (configured : buildConfig machine common options = .error e) :
      Ending machine common input options 1 machine.files
  | unreadable {config : Config} {logPath : Option String} {fault : FileFault}
      (configured : buildConfig machine common options = .ok (config, logPath))
      (unread : (opened machine common logPath).files.readText input = .error fault) :
      Ending machine common input options 1 (opened machine common logPath).files
  | dumped {config : Config} {logPath : Option String}
      (configured : buildConfig machine common options = .ok (config, logPath))
      (dumps : options.dumps = true) (status : Nat) :
      Ending machine common input options status (opened machine common logPath).files
  | uncompiled {config : Config} {logPath : Option String} {source : String} {e : CompileError}
      (compiles : Compiles machine common input options config logPath source (.error e)) :
      Ending machine common input options e.kind.exitCode
        (recorded machine common logPath input (.error e))
  | refused {config : Config} {logPath : Option String} {source script : String}
      (compiles : Compiles machine common input options config logPath source (.ok script))
      (same : Path.same (options.outputPath input) input = true) :
      Ending machine common input options 1 (recorded machine common logPath input (.ok script))
  | unwritable {config : Config} {logPath : Option String} {source script : String}
      {fault : FileFault}
      (compiles : Compiles machine common input options config logPath source (.ok script))
      (different : Path.same (options.outputPath input) input = false)
      (fails : (recorded machine common logPath input (.ok script)).write
        (options.outputPath input) script = .error fault) :
      Ending machine common input options 1 (recorded machine common logPath input (.ok script))
  | unmarked {config : Config} {logPath : Option String} {source script : String}
      {files : FileTree} {fault : FileFault}
      (compiles : Compiles machine common input options config logPath source (.ok script))
      (different : Path.same (options.outputPath input) input = false)
      (writes : (recorded machine common logPath input (.ok script)).write
        (options.outputPath input) script = .ok files)
      (fails : files.makeExecutable (options.outputPath input) = .error fault) :
      Ending machine common input options 1 files
  | written {config : Config} {logPath : Option String} {source script : String}
      {files marked : FileTree}
      (compiles : Compiles machine common input options config logPath source (.ok script))
      (different : Path.same (options.outputPath input) input = false)
      (writes : (recorded machine common logPath input (.ok script)).write
        (options.outputPath input) script = .ok files)
      (marks : files.makeExecutable (options.outputPath input) = .ok marked) :
      Ending machine common input options 0 marked

section

variable {machine : Machine} {common : Common} {input : String} {options : BuildOptions}

theorem files_dump {α : Type} {run : Run α} (h : run.Unrecorded) (state : State)
    (toJson : α → Json) : (dump state run toJson).1.files = state.files := by
  unfold dump
  split <;> exact (State.sameLog_logAll h state).files

theorem files_dumpSource (state : State) (config : Config) (label source : String) :
    (dumpSource state config options label source).files = state.files := by
  have htokens : (if options.dumpTokens then dump state (Compiler.tokens (some label) source)
        fun ts => .array (ts.map Token.toJson) else (state, none)).1.files = state.files := by
    split
    · exact files_dump (Compiler.unrecorded_tokens (some label) source) state _
    · rfl
  have hparse : ∀ next : State, (if options.dumpAst then
        dump next (Compiler.parse config (some label) source) Program.toJson
        else (next, none)).1.files = next.files := by
    intro next
    split
    · exact files_dump (Compiler.unrecorded_parse config (some label) source) next _
    · rfl
  unfold dumpSource
  revert htokens
  generalize (if options.dumpTokens then dump state (Compiler.tokens (some label) source)
    fun ts => .array (ts.map Token.toJson) else (state, none)) = first
  obtain ⟨next, _ | e⟩ := first
  · intro htokens
    specialize hparse next
    revert hparse
    dsimp only
    generalize (if options.dumpAst then
      dump next (Compiler.parse config (some label) source) Program.toJson
      else (next, none)) = second
    obtain ⟨last, _ | e⟩ := second
    · exact fun hparse => hparse.trans htokens
    · exact fun hparse => hparse.trans htokens
  · exact fun htokens => htokens

theorem files_logAll_record (machine : Machine) (common : Common) (logPath : Option String)
    {run : Run String} (h : run.Unrecorded) (input : String) :
    (((opened machine common logPath).logAll run.log).log (recordEntry input run.result)).files =
      recorded machine common logPath input run.result :=
  (State.sameLog_logAll h (opened machine common logPath)).files_log _

theorem ending_of_writeScript {config : Config} {logPath : Option String} {source script : String}
    (hcompiles : Compiles machine common input options config logPath source (.ok script))
    {state : State} (hfiles : state.files = recorded machine common logPath input (.ok script)) :
    Ending machine common input options
      (writeScript state input (options.outputPath input) script).exitCode
      (writeScript state input (options.outputPath input) script).files := by
  unfold writeScript
  split
  case isTrue hsame =>
    rw [State.fail, hfiles]
    exact .refused hcompiles hsame
  case isFalse hsame =>
    have hdifferent := Bool.eq_false_iff.mpr hsame
    split
    case h_1 fault hwrite =>
      rw [hfiles] at hwrite
      rw [State.fail, hfiles]
      exact .unwritable hcompiles hdifferent hwrite
    case h_2 files hwrite =>
      rw [hfiles] at hwrite
      split
      case h_1 fault hmark => exact .unmarked hcompiles hdifferent hwrite hmark
      case h_2 marked hmark =>
        dsimp only [State.finish]
        rw [(State.sameLog_log (by simp) _).files]
        exact .written hcompiles hdifferent hwrite hmark

theorem ending_of_compileSource {config : Config} {logPath : Option String} {source : String}
    (hconfig : buildConfig machine common options = .ok (config, logPath))
    (hread : (opened machine common logPath).files.readText input = .ok source)
    (hdumps : options.dumps = false) :
    Ending machine common input options
      (compileSource machine.packages.valid (opened machine common logPath) config options input
        source).exitCode
      (compileSource machine.packages.valid (opened machine common logPath) config options input
        source).files := by
  have hfiles := files_logAll_record machine common logPath
    (Compiler.unrecorded_compileBy machine.packages.valid config (some input) source) input
  have hcompiles : Compiles machine common input options config logPath source
      (Compiler.compileBy machine.packages.valid config (some input) source).result :=
    ⟨hconfig, hread, hdumps, rfl⟩
  unfold compileSource
  dsimp only
  split
  case h_1 e hresult =>
    rw [hresult] at hfiles hcompiles
    rw [State.fail, hresult, hfiles]
    exact .uncompiled hcompiles
  case h_2 script hresult =>
    rw [hresult] at hfiles hcompiles ⊢
    exact ending_of_writeScript hcompiles hfiles

theorem ending_of_build (machine : Machine) (common : Common) (input : String)
    (options : BuildOptions) : Ending machine common input options
      (build machine common input options).exitCode
      (build machine common input options).files := by
  unfold build
  split
  case h_1 e hconfig => exact .misconfigured hconfig
  case h_2 config logPath hconfig =>
    dsimp only
    split
    case h_1 fault hread => exact .unreadable hconfig hread
    case h_2 source hread =>
      split
      case isTrue hdumps =>
        rw [files_dumpSource]
        exact .dumped hconfig hdumps _
      case isFalse hdumps =>
        exact ending_of_compileSource hconfig hread (Bool.eq_false_iff.mpr hdumps)

-- An output that belongs to someone else is written, but cannot be marked.
example :
    let machine := Machine.ofSource "main:():\x7b\x7d"
    let owned := { machine with files := { machine.files with foreign := [["a.sh"]] } }
    let outcome := run owned ["build", "a.bk", "--no-verify"]
    outcome.exitCode = 1 ∧ outcome.files.content? ["a.sh"] ≠ none ∧
      outcome.stderr =
        "blowk: cannot set mode on a.sh: Operation not permitted (os error 1)\n" := by
  decide +kernel

end

/-! ## The log -/

/-- The files with the directory of a log. -/
def withParent (files : FileTree) (path : String) : FileTree :=
  match Path.parent? path with
  | some directory => files.makeDirectories directory
  | none => files

theorem extends_withParent (files : FileTree) (path : String) :
    files.Extends (withParent files path) := by
  unfold withParent
  split
  · exact files.extends_makeDirectories _
  · exact .refl files

theorem filled_withParent (files : FileTree) (path : String) (location : Location) :
    FileTree.Filled files (withParent files path) (files.way path) location := by
  unfold withParent
  split
  case h_1 directory hparent => exact files.filled_makeDirectories_parent hparent location
  case h_2 => exact .inl rfl

/-- A log is opened at the one location that its path denotes, or there is no log. -/
theorem opened_cases (machine : Machine) (common : Common) (path : String) :
    (∃ location, (withParent machine.files path).locate path = .ok location ∧
      (withParent machine.files path).get? location ≠ some .directory ∧
      (opened machine common (some path)).buildLog = some path ∧
      (opened machine common (some path)).files =
        (withParent machine.files path).changed location (· ++ "".toUTF8)) ∨
    (opened machine common (some path)).buildLog = none ∧
      (opened machine common (some path)).files = withParent machine.files path := by
  cases happend : (withParent machine.files path).append path "" with
  | ok files =>
    have hopened : opened machine common (some path) =
        { files
          level := .ofVerbosity (common.verbosity.getD 0)
          buildLog := some path
          format := machine.packages.format } := by
      rw [opened, openLog]
      cases hparent : Path.parent? path <;> simp only [withParent, hparent] at happend <;>
        simp only [happend]
    obtain ⟨location, hlocate, hfile, rfl⟩ := FileTree.change_eq_ok happend
    rw [hopened]
    exact .inl ⟨location, hlocate, hfile, rfl, rfl⟩
  | error fault =>
    have hopened : opened machine common (some path) =
        State.log { files := withParent machine.files path
                    level := .ofVerbosity (common.verbosity.getD 0)
                    format := machine.packages.format }
          ⟨.warn, .logging, "cannot open build log " ++ path ++ ": " ++ fault.message⟩ := by
      rw [opened, openLog]
      cases hparent : Path.parent? path <;> simp only [withParent, hparent] at happend ⊢ <;>
        simp only [happend]
    have hwarning : (⟨.warn, .logging, "cannot open build log " ++ path ++ ": " ++ fault.message⟩ :
        Log.Entry).origin ≠ .buildRecord := by simp
    have hsame := State.sameLog_log hwarning
      { files := withParent machine.files path
        level := .ofVerbosity (common.verbosity.getD 0)
        format := machine.packages.format }
    rw [hopened]
    exact .inr ⟨hsame.buildLog, hsame.files⟩

/-- Nothing has become of a location, or it is that of the open log, or a directory has been made
there that was missing on the way to the log. -/
def Touched (machine : Machine) (common : Common) (logPath : Option String) (files : FileTree)
    (location : Location) : Prop :=
  files.get? location = machine.files.get? location ∨
    ∃ path, logPath = some path ∧
      ((opened machine common logPath).buildLog = some path ∧ files.locate path = .ok location ∨
        machine.files.get? location = none ∧ files.get? location = some .directory ∧
          location ∈ machine.files.way path)

/-- `files` differ from those of the machine in the log only, which has gained `added` if it could
be opened, and in directories on the way to it. -/
structure OnlyLogged (machine : Machine) (common : Common) (logPath : Option String)
    (added : ByteArray) (files : FileTree) : Prop where
  grows : machine.files.Extends files
  touched : ∀ location, Touched machine common logPath files location
  gained : ∀ path, (opened machine common logPath).buildLog = some path →
    ∃ location, files.locate path = .ok location ∧
      files.content? location = some ((machine.files.content? location).getD .empty ++ added)

/-- Adding to the open log touches nothing else. -/
theorem onlyLogged_changed {machine : Machine} {common : Common} {path : String}
    {location : Location} {files : FileTree} {added more : ByteArray}
    (hlog : (opened machine common (some path)).buildLog = some path)
    (hgrows : machine.files.Extends files)
    (htouched : ∀ other, Touched machine common (some path) files other)
    (hlocate : files.locate path = .ok location)
    (hfile : files.get? location ≠ some .directory)
    (hheld : (files.content? location).getD .empty =
      (machine.files.content? location).getD .empty ++ added) :
    OnlyLogged machine common (some path) (added ++ more)
      (files.changed location (· ++ more)) := by
  have hextends := FileTree.extends_changed hfile (· ++ more)
  refine ⟨hgrows.trans hextends, fun other => ?_, fun path' hlog' => ?_⟩
  · by_cases hsame : other = location
    · rw [hsame]
      exact .inr ⟨path, rfl, .inl ⟨hlog, hextends.locate hlocate⟩⟩
    · have hget := FileTree.get?_changed_of_ne hfile (· ++ more) hsame
      obtain hsame' | ⟨path', hpath, ⟨hlog', hother⟩ | hmade⟩ := htouched other
      · exact .inl (hget.trans hsame')
      · exact .inr ⟨path', hpath, .inl ⟨hlog', hextends.locate hother⟩⟩
      · refine .inr ⟨path', hpath, .inr ?_⟩
        rwa [hget]
  · obtain rfl := Option.some.inj (hlog.symm.trans hlog')
    refine ⟨location, hextends.locate hlocate, ?_⟩
    rw [FileTree.content?_changed_self hfile, hheld, ByteArray.append_assoc]

theorem touched_of_filled {machine : Machine} (common : Common) {path : String}
    {files : FileTree} {location : Location}
    (h : FileTree.Filled machine.files files (machine.files.way path) location) :
    Touched machine common (some path) files location :=
  h.imp_right fun hmade => ⟨path, rfl, .inr hmade⟩

theorem onlyLogged_opened (machine : Machine) (common : Common) (logPath : Option String) :
    OnlyLogged machine common logPath .empty (opened machine common logPath).files := by
  cases logPath with
  | none => exact ⟨.refl _, fun _ => .inl rfl, fun _ hlog => by cases hlog⟩
  | some path =>
    have hgrows := extends_withParent machine.files path
    have hfilled := filled_withParent machine.files path
    obtain ⟨location, hlocate, hfile, hlog, hfiles⟩ | ⟨hlog, hfiles⟩ :=
      opened_cases machine common path
    · have hheld : ((withParent machine.files path).content? location).getD .empty =
          (machine.files.content? location).getD .empty ++ .empty := by
        rw [(hfilled location).content?_eq, ByteArray.append_empty]
      have hempty : ByteArray.empty ++ "".toUTF8 = .empty := rfl
      rw [hfiles, ← hempty]
      exact onlyLogged_changed hlog hgrows
        (fun other => touched_of_filled common (hfilled other)) hlocate hfile hheld
    · rw [hfiles]
      refine ⟨hgrows, fun other => touched_of_filled common (hfilled other), fun _ hlog' => ?_⟩
      rw [hlog] at hlog'
      cases hlog'

theorem origin_recordEntry (input : String) (result : Except CompileError String) :
    (recordEntry input result).origin = .buildRecord := rfl

/-- The bytes of a build record in the log. -/
def recordLine (machine : Machine) (input : String) (result : Except CompileError String) :
    ByteArray :=
  (machine.packages.format.record (recordEntry input result) ++ "\n").toUTF8

theorem format_opened (machine : Machine) (common : Common) (logPath : Option String) :
    (opened machine common logPath).format = machine.packages.format := by
  cases logPath with
  | none => rfl
  | some path =>
    rw [opened, openLog]
    split
    · rfl
    · exact (State.sameLog_log (by simp) _).format

theorem recorded_eq_changed {machine : Machine} {common : Common} {path : String}
    {location : Location} (hlog : (opened machine common (some path)).buildLog = some path)
    (hlocate : (opened machine common (some path)).files.locate path = .ok location)
    (hfile : (opened machine common (some path)).files.get? location ≠ some .directory)
    (input : String) (result : Except CompileError String) :
    recorded machine common (some path) input result =
      (opened machine common (some path)).files.changed location
        (· ++ recordLine machine input result) := by
  have happend : (opened machine common (some path)).files.append path
      (machine.packages.format.record (recordEntry input result) ++ "\n") =
        .ok ((opened machine common (some path)).files.changed location
          (· ++ recordLine machine input result)) :=
    FileTree.change_of_locate _ hlocate hfile
  rw [recorded, State.log, if_pos (origin_recordEntry input result), hlog]
  dsimp only
  rw [format_opened, happend]

theorem State.files_log_of_none {state : State} (hlog : state.buildLog = none) (input : String)
    (result : Except CompileError String) :
    (state.log (recordEntry input result)).files = state.files := by
  rw [log, if_pos (origin_recordEntry input result), hlog]

theorem onlyLogged_recorded (machine : Machine) (common : Common) (logPath : Option String)
    (input : String) (result : Except CompileError String) :
    OnlyLogged machine common logPath (recordLine machine input result)
      (recorded machine common logPath input result) := by
  obtain ⟨hgrows, htouched, hgained⟩ := onlyLogged_opened machine common logPath
  have hunlogged (hlog : (opened machine common logPath).buildLog = none) :
      OnlyLogged machine common logPath (recordLine machine input result)
        (recorded machine common logPath input result) := by
    rw [recorded, State.files_log_of_none hlog]
    refine ⟨hgrows, htouched, fun path hlog' => ?_⟩
    rw [hlog] at hlog'
    cases hlog'
  cases logPath with
  | none => exact hunlogged rfl
  | some path =>
    obtain ⟨-, -, -, hlog, -⟩ | ⟨hlog, -⟩ := opened_cases machine common path
    · obtain ⟨location, hlocate, hcontent⟩ := hgained path hlog
      have hfile := FileTree.ne_directory_of_content? hcontent
      rw [recorded_eq_changed hlog hlocate hfile,
        ← @ByteArray.empty_append (recordLine machine input result)]
      exact onlyLogged_changed hlog hgrows htouched hlocate hfile
        (congrArg (Option.getD · ByteArray.empty) hcontent)
    · exact hunlogged hlog

/-! ## Results -/

section

variable {machine : Machine} {common : Common} {input : String} {options : BuildOptions}

theorem buildConfig_unique {config config' : Config} {logPath logPath' : Option String}
    (h : buildConfig machine common options = .ok (config, logPath))
    (h' : buildConfig machine common options = .ok (config', logPath')) :
    config' = config ∧ logPath' = logPath :=
  Prod.mk.inj (Except.ok.inj (h'.symm.trans h))

theorem Compiles.unique {config config' : Config} {logPath logPath' : Option String}
    {source source' : String} {result result' : Except CompileError String}
    (h : Compiles machine common input options config logPath source result)
    (h' : Compiles machine common input options config' logPath' source' result') :
    logPath' = logPath ∧ result' = result := by
  obtain ⟨rfl, rfl⟩ := buildConfig_unique h.configured h'.configured
  obtain rfl := Except.ok.inj (h.reads.symm.trans h'.reads)
  exact ⟨rfl, h'.result_eq.symm.trans h.result_eq⟩

/-- What a build adds to its log: the record of its compilation, if it comes to that. -/
structure Adds (machine : Machine) (common : Common) (input : String) (options : BuildOptions)
    (config : Config) (logPath : Option String) (added : ByteArray) : Prop where
  record : ∀ source result,
    Compiles machine common input options config logPath source result →
      added = recordLine machine input result
  nothing : (¬ ∃ source result,
    Compiles machine common input options config logPath source result) → added = .empty

theorem Compiles.adds {config : Config} {logPath : Option String} {source : String}
    {result : Except CompileError String}
    (h : Compiles machine common input options config logPath source result) :
    Adds machine common input options config logPath (recordLine machine input result) := by
  refine ⟨fun source' result' h' => ?_, fun hnone => absurd ⟨source, result, h⟩ hnone⟩
  rw [(h.unique h').2]

theorem adds_nothing {config : Config} {logPath : Option String}
    (h : ∀ source result, ¬ Compiles machine common input options config logPath source result) :
    Adds machine common input options config logPath .empty :=
  ⟨fun source result h' => absurd h' (h source result), fun _ => rfl⟩

/-- A build keeps its log. There is more only if its source compiles and its output is not refused:
the script, at one location. -/
theorem Ending.logged {status : Nat} {files : FileTree}
    (h : Ending machine common input options status files)
    {config : Config} {logPath : Option String}
    (hconfig : buildConfig machine common options = .ok (config, logPath)) :
    ∃ added logged, Adds machine common input options config logPath added ∧
      OnlyLogged machine common logPath added logged ∧
      (files = logged ∨ status ≤ 1 ∧ ∃ source script location,
        Compiles machine common input options config logPath source (.ok script) ∧
          Path.same (options.outputPath input) input = false ∧
          logged.Written (options.outputPath input) location script files) := by
  cases h with
  | misconfigured hconfig' =>
    rw [hconfig] at hconfig'
    cases hconfig'
  | unreadable hconfig' hread =>
    obtain ⟨rfl, rfl⟩ := buildConfig_unique hconfig hconfig'
    refine ⟨_, _, adds_nothing fun source result hcompiles => ?_,
      onlyLogged_opened .., .inl rfl⟩
    have hreads := hcompiles.reads
    rw [hread] at hreads
    cases hreads
  | dumped hconfig' hdumps =>
    obtain ⟨rfl, rfl⟩ := buildConfig_unique hconfig hconfig'
    refine ⟨_, _, adds_nothing fun source result hcompiles => ?_,
      onlyLogged_opened .., .inl rfl⟩
    have hundumped := hcompiles.undumped
    rw [hdumps] at hundumped
    cases hundumped
  | uncompiled hcompiles | refused hcompiles | unwritable hcompiles =>
    obtain ⟨rfl, rfl⟩ := buildConfig_unique hconfig hcompiles.configured
    exact ⟨_, _, hcompiles.adds, onlyLogged_recorded .., .inl rfl⟩
  | unmarked hcompiles hdifferent hwrites =>
    obtain ⟨rfl, rfl⟩ := buildConfig_unique hconfig hcompiles.configured
    obtain ⟨location, hwritten⟩ := FileTree.written_of_write hwrites (.inl rfl)
    exact ⟨_, _, hcompiles.adds, onlyLogged_recorded ..,
      .inr ⟨Nat.le_refl 1, _, _, location, hcompiles, hdifferent, hwritten⟩⟩
  | written hcompiles hdifferent hwrites hmarks =>
    obtain ⟨rfl, rfl⟩ := buildConfig_unique hconfig hcompiles.configured
    obtain ⟨location, hwritten⟩ := FileTree.written_of_write hwrites (.inr hmarks)
    exact ⟨_, _, hcompiles.adds, onlyLogged_recorded ..,
      .inr ⟨Nat.zero_le 1, _, _, location, hcompiles, hdifferent, hwritten⟩⟩

/-- A build whose script has a path of its own comes to write it. -/
theorem Ending.comes_to_write {status : Nat} {files : FileTree}
    (h : Ending machine common input options status files) {config : Config}
    {logPath : Option String} {source script : String}
    (hcompiles : Compiles machine common input options config logPath source (.ok script))
    (hdifferent : Path.same (options.outputPath input) input = false) :
    (∃ fault, (recorded machine common logPath input (.ok script)).write
        (options.outputPath input) script = .error fault ∧
      files = recorded machine common logPath input (.ok script)) ∨
    ∃ location, (recorded machine common logPath input (.ok script)).Written
      (options.outputPath input) location script files := by
  have hconfigured := hcompiles.configured
  cases h with
  | misconfigured hconfig =>
    rw [hconfig] at hconfigured
    cases hconfigured
  | unreadable hconfig hread =>
    obtain ⟨rfl, rfl⟩ := buildConfig_unique hconfig hconfigured
    have hreads := hcompiles.reads
    rw [hread] at hreads
    cases hreads
  | dumped hconfig hdumps =>
    have hundumped := hcompiles.undumped
    rw [hdumps] at hundumped
    cases hundumped
  | uncompiled hother =>
    obtain ⟨rfl, hresult⟩ := hother.unique hcompiles
    cases hresult
  | refused hother hsame =>
    rw [hsame] at hdifferent
    cases hdifferent
  | unwritable hother _ hfails =>
    obtain ⟨rfl, hresult⟩ := hother.unique hcompiles
    cases hresult
    exact .inl ⟨_, hfails, rfl⟩
  | unmarked hother _ hwrites =>
    obtain ⟨rfl, hresult⟩ := hother.unique hcompiles
    cases hresult
    exact .inr (FileTree.written_of_write hwrites (.inl rfl))
  | written hother _ hwrites hmarks =>
    obtain ⟨rfl, hresult⟩ := hother.unique hcompiles
    cases hresult
    exact .inr (FileTree.written_of_write hwrites (.inr hmarks))

/-- The build writes `script` to a location, to which its output leads by a path that is not that
of its source. -/
structure Overwrites (machine : Machine) (common : Common) (input : String)
    (options : BuildOptions) (files : FileTree) (location : Location) (source script : String) :
    Prop where
  compiles : ∃ config logPath,
    Compiles machine common input options config logPath source (.ok script)
  different : Path.same (options.outputPath input) input = false
  located : files.locate (options.outputPath input) = .ok location

/-- A file that is written over holds the script. -/
theorem Overwrites.content?_of_file {status : Nat} {files : FileTree} {location : Location}
    {source script : String}
    (hover : Overwrites machine common input options files location source script)
    (h : Ending machine common input options status files)
    (hfile : files.get? location ≠ some .directory) :
    files.content? location = some script.toUTF8 := by
  obtain ⟨⟨config, logPath, hcompiles⟩, hdifferent, hlocated⟩ := hover
  obtain ⟨fault, hfails, rfl⟩ | ⟨place, hwritten⟩ := h.comes_to_write hcompiles hdifferent
  · -- The output leads to a file, so it can be written.
    have hwrites : (recorded machine common logPath input (.ok script)).write
        (options.outputPath input) script = .ok _ := FileTree.change_of_locate _ hlocated hfile
    rw [hwrites] at hfails
    cases hfails
  · obtain rfl := Except.ok.inj ((hwritten.grows.locate hwritten.located).symm.trans hlocated)
    exact hwritten.content?_eq

theorem files_of_misconfigured {e : ConfigError} (input : String)
    (h : buildConfig machine common options = .error e) :
    (build machine common input options).files = machine.files := by
  rw [build, h]
  rfl

theorem run_of_build {arguments : List String}
    (h : machine.packages.request? arguments = some (.build common input options)) :
    run machine arguments = build machine common input options := by
  rw [run, h]

end

/-- A build that fails or dumps writes no output. With a bad configuration it changes nothing. If it
does not compile, cannot read its source, refuses its output or dumps, the locations that it touches
are that of its log, if that could be opened, and those of directories missing on the way there. The
log gains one record if the source was compiled and nothing if it was not, unless the script is then
written to the log itself, which holds the script alone. -/
theorem failed_build_keeps_to_log {machine : Machine} {arguments : List String} {common : Common}
    {input : String} {options : BuildOptions}
    (hrequest : machine.packages.request? arguments = some (.build common input options)) :
    (∀ e, buildConfig machine common options = .error e →
      (run machine arguments).files = machine.files) ∧
    ∀ config logPath, buildConfig machine common options = .ok (config, logPath) →
      (3 ≤ (run machine arguments).exitCode ∧ (run machine arguments).exitCode ≤ 6 ∨
          (∃ fault, (opened machine common logPath).files.readText input = .error fault) ∨
          Path.same (options.outputPath input) input = true ∨ options.dumps = true →
        ∀ location, Touched machine common logPath (run machine arguments).files location) ∧
      ∀ path, (opened machine common logPath).buildLog = some path →
        ∃ location, (run machine arguments).files.locate path = .ok location ∧
          ((∀ source script, ¬ Overwrites machine common input options
              (run machine arguments).files location source script) →
            ∃ added, Adds machine common input options config logPath added ∧
              (run machine arguments).files.content? location =
                some ((machine.files.content? location).getD .empty ++ added)) ∧
          ∀ source script, Overwrites machine common input options
              (run machine arguments).files location source script →
            (run machine arguments).files.content? location = some script.toUTF8 := by
  rw [run_of_build hrequest]
  have hending := ending_of_build machine common input options
  refine ⟨fun e he => files_of_misconfigured input he, fun config logPath hconfig => ?_⟩
  obtain ⟨added, logged, hadds, honly, hfiles⟩ := hending.logged hconfig
  refine ⟨fun hfailed => ?_, fun path hlog => ?_⟩
  · obtain hfiles | ⟨hstatus, source, _, _, hcompiles, hdifferent, -⟩ := hfiles
    · rw [hfiles]
      exact honly.touched
    · exfalso
      obtain ⟨hlow, -⟩ | ⟨fault, hread⟩ | hsame | hdumps := hfailed
      · omega
      · rw [hcompiles.reads] at hread
        cases hread
      · rw [hdifferent] at hsame
        cases hsame
      · rw [hcompiles.undumped] at hdumps
        cases hdumps
  · obtain ⟨location, hlocate, hcontent⟩ := honly.gained path hlog
    obtain hfiles | ⟨-, source, script, place, hcompiles, hdifferent, hwritten⟩ := hfiles
    · rw [← hfiles] at hlocate hcontent
      exact ⟨location, hlocate, fun _ => ⟨added, hadds, hcontent⟩, fun source script hover =>
        hover.content?_of_file hending (FileTree.ne_directory_of_content? hcontent)⟩
    · refine ⟨location, hwritten.grows.locate hlocate, ?_⟩
      by_cases hsame : location = place
      · -- The script is written where its path leads, and that is the log.
        subst hsame
        have hover : Overwrites machine common input options
            (build machine common input options).files location source script :=
          ⟨⟨config, logPath, hcompiles⟩, hdifferent, hwritten.grows.locate hwritten.located⟩
        refine ⟨fun hnot => absurd hover (hnot source script), fun source' script' hover' => ?_⟩
        exact hover'.content?_of_file hending
          (FileTree.ne_directory_of_content? hwritten.content?_eq)
      · have hkept := (hwritten.content?_of_ne hsame).trans hcontent
        exact ⟨fun _ => ⟨added, hadds, hkept⟩, fun source' script' hover' =>
          hover'.content?_of_file hending (FileTree.ne_directory_of_content? hkept)⟩

/-- Where the machine of one file keeps its log. -/
def logOfSource : Location := ["home", ".local", "share", "blowk", "builds.log"]

theorem syntax_error_keeps_to_log :
    (run (.ofSource "x") ["build", "a.bk"]).exitCode = 4 ∧
      (∀ location, Touched (.ofSource "x") {} (some "/home/.local/share/blowk/builds.log")
        (run (.ofSource "x") ["build", "a.bk"]).files location) ∧
      (run (.ofSource "x") ["build", "a.bk"]).files.content? logOfSource =
        some "[INFO] a.bk\tsyntax error\ta.bk:1:1: syntax error: unexpected `x`\n".toUTF8 := by
  have hrequest : (Machine.ofSource "x").packages.request? ["build", "a.bk"] =
      some (.build {} "a.bk" { input := some "a.bk" }) := by decide +kernel
  have hconfig : buildConfig (.ofSource "x") {} { input := some "a.bk" } =
      .ok (.standard, some "/home/.local/share/blowk/builds.log") := by decide +kernel
  have hstatus : (run (.ofSource "x") ["build", "a.bk"]).exitCode = 4 := by decide +kernel
  refine ⟨hstatus, ?_, by decide +kernel⟩
  exact ((failed_build_keeps_to_log hrequest).2 _ _ hconfig).1 (.inl (by rw [hstatus]; decide))

/-- A build of `a.bk` into the log of the build. -/
def intoLog : List String :=
  ["build", "a.bk", "-o", "/home/.local/share/blowk/builds.log", "--no-verify"]

def intoLogOptions : BuildOptions :=
  { input := some "a.bk"
    output := some "/home/.local/share/blowk/builds.log"
    noVerify := true }

/-- The script of an empty `main`. -/
def emptyScript : String :=
  "#!/usr/bin/env bash\n\n# check for which and echo by default\n"
    ++ "if [[ -z \"$( which which )\" ]]; then\n\texit 213\nfi\n\n"
    ++ "if [[ -z \"$( which echo )\" ]]; then\n\texit 214\nfi\n\n# main code\n"

/-- The log is open and the source is compiled, and yet there is no record in the end. -/
theorem output_replaces_record :
    (Machine.ofSource "main:():\x7b\x7d").packages.request? intoLog =
        some (.build {} "a.bk" intoLogOptions) ∧
      (∃ config, Compiles (.ofSource "main:():\x7b\x7d") {} "a.bk" intoLogOptions config
        (some "/home/.local/share/blowk/builds.log") "main:():\x7b\x7d" (.ok emptyScript)) ∧
      (opened (.ofSource "main:():\x7b\x7d") {}
        (some "/home/.local/share/blowk/builds.log")).buildLog =
          some "/home/.local/share/blowk/builds.log" ∧
      recordLine (.ofSource "main:():\x7b\x7d") "a.bk" (.ok emptyScript) =
        "[INFO] a.bk\tok\t12 lines\n".toUTF8 ∧
      (run (.ofSource "main:():\x7b\x7d") intoLog).files.content? logOfSource =
        some emptyScript.toUTF8 := by
  refine ⟨by decide +kernel, ?_, by decide +kernel, by decide +kernel, by decide +kernel⟩
  refine ⟨{ Config.standard with
    settings := { Config.standard.settings with verifyOutput := false } }, ?_, ?_, rfl, ?_⟩
  · decide +kernel
  · decide +kernel
  · exact eq_ok_of_toOption (by decide +kernel)

end CheckedScript.CommandLine
