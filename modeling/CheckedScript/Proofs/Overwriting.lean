import CheckedScript.Proofs.Builds

/-!
What becomes of the source of a build. Output and source are told apart by the components of their
paths, and a script is written to the location that the path of the output denotes: the source is
lost exactly if a path with other components leads to it. The output that a build chooses by itself
never does.

Main results:
* `FileTree.same_of_withExtension`: the output that a build chooses.
* `CommandLine.source_altered_iff`: when the source is lost.

A log that is kept in the source itself is left out of account.
-/

namespace CheckedScript

/-! ## Sources and default outputs -/

namespace FileTree

/-- The text at a path is that of the file which the path denotes. -/
theorem readText_eq_ok {tree : FileTree} {path text : String} (h : tree.readText path = .ok text) :
    ∃ location, tree.locate path = .ok location ∧ tree.content? location = some text.toUTF8 := by
  obtain ⟨bytes, hread, htext⟩ := bind_eq_ok_iff.mp h
  obtain ⟨location, hlocate, hfile⟩ := bind_eq_ok_iff.mp hread
  have hbytes : tree.content? location = some bytes := by
    rw [content?]
    split at hfile <;> cases hfile
    rename_i hget
    rw [hget]
  refine ⟨location, hlocate, hbytes.trans (congrArg some ?_)⟩
  split at htext <;> cases htext
  rename_i hvalid
  rw [String.fromUTF8?] at hvalid
  split at hvalid <;> cases hvalid
  rfl

/-- A path and the path with the extension of a script are the same if they denote one file. -/
theorem same_of_withExtension {tree : FileTree} {path : String} {location : Location}
    (hpath : tree.locate path = .ok location)
    (hother : tree.locate (Path.withExtension path "sh") = .ok location)
    (hfile : tree.get? location ≠ some .directory) :
    Path.same (Path.withExtension path "sh") path = true := by
  obtain heq | ⟨front, name, other, hends, hends'⟩ | ⟨front, name, hends, habsolute, hparent⟩ :=
    Path.withExtension_sh path
  · rw [heq]
    exact Path.same_of_segments rfl
  · obtain ⟨hsegments, above, -, rfl⟩ := locate_of_endsIn hends hpath hfile
    obtain ⟨hsegments', above', -, heq⟩ := locate_of_endsIn hends' hother hfile
    have hname : String.ofList name = String.ofList other :=
      List.singleton_inj.mp (List.append_inj' heq rfl).2
    rw [← hname] at hsegments'
    exact Path.same_of_segments (hsegments'.trans hsegments.symm)
  · -- The one path leads below a directory, and the other above it.
    exfalso
    obtain ⟨-, above, habove, rfl⟩ := locate_of_endsIn hends hpath hfile
    have hfollow := locate_eq_ok hother
    rw [hparent, origin, habsolute] at hfollow
    obtain ⟨middle, hmiddle, hrest⟩ := follow_append_eq_ok_iff.mp hfollow
    obtain rfl := Except.ok.inj (hmiddle.symm.trans habove)
    have hlength := congrArg List.length (Except.ok.inj (follow_cons_eq_ok_iff.mp hrest).2)
    simp [enter] at hlength

end FileTree

namespace CommandLine

variable {machine : Machine} {common : Common} {input : String} {options : BuildOptions}
  {location : Location}

/-- Keeping a log elsewhere leaves the content of a file as it is. -/
theorem OnlyLogged.content?_eq {logPath : Option String} {added : ByteArray} {logged : FileTree}
    (h : OnlyLogged machine common logPath added logged)
    (hapart : ∀ path, logPath = some path → logged.locate path ≠ .ok location) :
    logged.content? location = machine.files.content? location := by
  obtain hsame | ⟨path, hpath, ⟨-, hlocate⟩ | ⟨hnone, hdirectory, -⟩⟩ := h.touched location
  · exact FileTree.content?_congr hsame
  · exact absurd hlocate (hapart path hpath)
  · rw [FileTree.content?, FileTree.content?, hnone, hdirectory]

/-- The source of a compilation is what stood there before the build. -/
theorem Compiles.content?_eq {config : Config} {logPath : Option String} {source : String}
    {result : Except CompileError String} {files : FileTree}
    (h : Compiles machine common input options config logPath source result)
    (hgrows : (opened machine common logPath).files.Extends files)
    (hsource : files.locate input = .ok location)
    (hapart : ∀ path, logPath = some path → files.locate path ≠ .ok location) :
    machine.files.content? location = some source.toUTF8 := by
  obtain ⟨place, hplace, hcontent⟩ := FileTree.readText_eq_ok h.reads
  obtain rfl := Except.ok.inj ((hgrows.locate hplace).symm.trans hsource)
  rw [← hcontent]
  symm
  exact (onlyLogged_opened machine common logPath).content?_eq fun path hpath hlocate =>
    hapart path hpath (hgrows.locate hlocate)

/-- A source that is written over holds the script in place of its text. -/
theorem Overwrites.content?_eq {status : Nat} {files : FileTree} {source script : String}
    (hover : Overwrites machine common input options files location source script)
    (h : Ending machine common input options status files)
    (hsource : files.locate input = .ok location)
    (hapart : ∀ config path, buildConfig machine common options = .ok (config, some path) →
      files.locate path ≠ .ok location) :
    machine.files.content? location = some source.toUTF8 ∧
      files.content? location = some script.toUTF8 := by
  obtain ⟨config, logPath, hcompiles⟩ := hover.compiles
  have hlogs := (opened machine common logPath).extends_log (recordEntry input (.ok script))
  have hapart' : ∀ path, logPath = some path → files.locate path ≠ .ok location := by
    rintro path rfl
    exact hapart config path hcompiles.configured
  obtain ⟨fault, -, rfl⟩ | ⟨place, hwritten⟩ := h.comes_to_write hcompiles hover.different
  · have hbefore := hcompiles.content?_eq hlogs hsource hapart'
    have hkept :=
      (onlyLogged_recorded machine common logPath input (.ok script)).content?_eq hapart'
    exact ⟨hbefore, hover.content?_of_file h
      (FileTree.ne_directory_of_content? (hkept.trans hbefore))⟩
  · have hgrows := hwritten.grows
    obtain rfl := Except.ok.inj ((hgrows.locate hwritten.located).symm.trans hover.located)
    exact ⟨hcompiles.content?_eq (hlogs.trans hgrows) hsource hapart', hwritten.content?_eq⟩

/-- A source that is not written over is left as it was. -/
theorem content?_of_not_overwrites
    (hnot : ∀ source script, ¬ Overwrites machine common input options
      (build machine common input options).files location source script)
    (hapart : ∀ config path, buildConfig machine common options = .ok (config, some path) →
      (build machine common input options).files.locate path ≠ .ok location) :
    (build machine common input options).files.content? location =
      machine.files.content? location := by
  cases hconfig : buildConfig machine common options with
  | error e => rw [files_of_misconfigured input hconfig]
  | ok configured =>
    obtain ⟨config, logPath⟩ := configured
    have hapart' : ∀ path, logPath = some path →
        (build machine common input options).files.locate path ≠ .ok location := by
      rintro path rfl
      exact hapart config path hconfig
    obtain ⟨added, logged, -, honly, hfiles | hwritten⟩ :=
      (ending_of_build machine common input options).logged hconfig
    · rw [hfiles] at hapart' ⊢
      exact honly.content?_eq hapart'
    · obtain ⟨-, source, script, place, hcompiles, hdifferent, hwritten⟩ := hwritten
      have hgrows := hwritten.grows
      have hne : location ≠ place := by
        rintro rfl
        exact hnot source script
          ⟨⟨config, logPath, hcompiles⟩, hdifferent, hgrows.locate hwritten.located⟩
      rw [hwritten.content?_of_ne hne]
      exact honly.content?_eq fun path hpath hlocate =>
        hapart' path hpath (hgrows.locate hlocate)

theorem extends_build (machine : Machine) (common : Common) (input : String)
    (options : BuildOptions) :
    machine.files.Extends (build machine common input options).files := by
  cases hconfig : buildConfig machine common options with
  | error e =>
    rw [files_of_misconfigured input hconfig]
    exact .refl _
  | ok configured =>
    obtain ⟨added, logged, -, honly, hfiles | ⟨-, _, _, _, -, -, hwritten⟩⟩ :=
      (ending_of_build machine common input options).logged hconfig
    · rw [hfiles]
      exact honly.grows
    · exact honly.grows.trans hwritten.grows

/-- With its log elsewhere, a build changes the content of its source exactly if it has compiled
it to another text and its output leads to the source by a path with other components. It does not
if it chooses the output itself. -/
theorem source_altered_iff {arguments : List String}
    (hrequest : machine.packages.request? arguments = some (.build common input options))
    (hsource : machine.files.locate input = .ok location ∨
      (run machine arguments).files.locate input = .ok location)
    (hapart : ∀ config path, buildConfig machine common options = .ok (config, some path) →
      (run machine arguments).files.locate path ≠ .ok location) :
    ((run machine arguments).files.content? location ≠ machine.files.content? location ↔
      ∃ source script, script ≠ source ∧ Overwrites machine common input options
        (run machine arguments).files location source script) ∧
    (options.output = none →
      (run machine arguments).files.content? location = machine.files.content? location) := by
  rw [run_of_build hrequest] at hsource hapart ⊢
  have hlocate : (build machine common input options).files.locate input = .ok location :=
    hsource.elim (extends_build machine common input options).locate id
  have hending := ending_of_build machine common input options
  have haltered : (build machine common input options).files.content? location ≠
      machine.files.content? location ↔ ∃ source script, script ≠ source ∧
        Overwrites machine common input options (build machine common input options).files
          location source script := by
    constructor
    · intro hne
      by_contra hnone
      refine hne (content?_of_not_overwrites (fun source script hover => ?_) hapart)
      obtain ⟨hbefore, hafter⟩ := hover.content?_eq hending hlocate hapart
      have hsame : script = source := by
        by_contra hdiffers
        exact hnone ⟨source, script, hdiffers, hover⟩
      rw [hbefore, hafter, hsame] at hne
      exact hne rfl
    · rintro ⟨source, script, hdiffers, hover⟩ hsame
      obtain ⟨hbefore, hafter⟩ := hover.content?_eq hending hlocate hapart
      rw [hbefore, hafter] at hsame
      exact hdiffers (String.toByteArray_inj.mp (Option.some.inj hsame))
  refine ⟨haltered, fun hdefault => ?_⟩
  by_contra hne
  obtain ⟨source, script, -, hover⟩ := haltered.mp hne
  obtain ⟨-, hafter⟩ := hover.content?_eq hending hlocate hapart
  have hfile := FileTree.ne_directory_of_content? hafter
  have hpath : options.outputPath input = Path.withExtension input "sh" := by
    rw [BuildOptions.outputPath, hdefault]
    rfl
  have hlocated := hover.located
  have hdifferent := hover.different
  rw [hpath] at hlocated hdifferent
  rw [FileTree.same_of_withExtension hlocate hlocated hfile] at hdifferent
  cases hdifferent

/-- A build of `a.bk` into a path that leads back to it. -/
def respelled : List String := ["build", "a.bk", "-o", "./a.bk", "--no-verify"]

def respelledOptions : BuildOptions :=
  { input := some "a.bk", output := some "./a.bk", noVerify := true }

theorem source_altered_iff_respelled :
    (Machine.ofSource "main:():\x7b\x7d").files.locate "a.bk" = .ok ["a.bk"] ∧
      ∃ source script, script ≠ source ∧
        Overwrites (.ofSource "main:():\x7b\x7d") {} "a.bk" respelledOptions
          (run (.ofSource "main:():\x7b\x7d") respelled).files ["a.bk"] source script := by
  have hlog : (buildConfig (.ofSource "main:():\x7b\x7d") {} respelledOptions).map (·.2) =
      .ok (some "/home/.local/share/blowk/builds.log") := by decide +kernel
  have hlocate : (Machine.ofSource "main:():\x7b\x7d").files.locate "a.bk" = .ok ["a.bk"] := by
    decide +kernel
  refine ⟨hlocate, (source_altered_iff (by decide +kernel) (.inl hlocate) ?_).1.mp
    (by decide +kernel)⟩
  intro config path hconfig
  rw [hconfig] at hlog
  obtain rfl := Option.some.inj (Except.ok.inj hlog)
  decide +kernel

/-- The same place by another path is not refused, and the source is gone. -/
theorem respelled_output_overwrites_source :
    (Machine.ofSource "main:():\x7b\x7d").files.locate "a.bk" = .ok ["a.bk"] ∧
      (buildConfig (.ofSource "main:():\x7b\x7d") {} respelledOptions).map (·.2) =
        .ok (some "/home/.local/share/blowk/builds.log") ∧
      (run (.ofSource "main:():\x7b\x7d") respelled).files.locate
        "/home/.local/share/blowk/builds.log" ≠ .ok ["a.bk"] ∧
      (run (.ofSource "main:():\x7b\x7d") respelled).files.content? ["a.bk"] ≠
        (Machine.ofSource "main:():\x7b\x7d").files.content? ["a.bk"] := by
  decide +kernel

end CommandLine

end CheckedScript
