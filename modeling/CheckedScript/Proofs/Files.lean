import CheckedScript.FileTree
import CheckedScript.Proofs.Paths
import CheckedScript.Proofs.Result

/-!
What the operations on a file tree change, location by location. Writing to a path changes the one
file that the path denotes; making directories fills in what is missing on the way. A directory
stays a directory, so a path that denotes a location goes on to denote it.

Main results:
* `change_eq_ok`: what a write changes.
* `Extends.locate`: paths go on to denote what they denoted.
* `filled_makeDirectories_parent`: what making directories fills in.
* `Written.content?_of_ne`: a script that is written and marked changes one file.
-/

namespace CheckedScript.FileTree

/-! ## Entries -/

/-- The content of the file at a location. -/
def content? (tree : FileTree) (location : Location) : Option ByteArray :=
  match tree.get? location with
  | some (.file content _) => some content
  | _ => none

theorem content?_of_file {tree : FileTree} {location : Location} {content : ByteArray}
    {executable : Bool} (h : tree.get? location = some (.file content executable)) :
    tree.content? location = some content := by
  rw [content?, h]

theorem content?_congr {tree other : FileTree} {location : Location}
    (h : tree.get? location = other.get? location) :
    tree.content? location = other.content? location := by
  rw [content?, content?, h]

theorem ne_directory_of_content? {tree : FileTree} {location : Location} {content : ByteArray}
    (h : tree.content? location = some content) : tree.get? location ≠ some .directory := by
  intro hdirectory
  rw [content?, hdirectory] at h
  cases h

theorem find?_put {location : Location} (entry : Entry) (entries : List (Location × Entry))
    (other : Location) :
    ((put.go location entry entries).find? fun old => old.1 = other).map (·.2) =
      if other = location then some entry
      else (entries.find? fun old => old.1 = other).map (·.2) := by
  induction entries with
  | nil =>
    rw [put.go, List.find?_cons]
    by_cases hsame : other = location
    · simp [hsame]
    · simp [hsame, Ne.symm hsame]
  | cons old rest ih =>
    rw [put.go]
    split
    case isTrue hold =>
      by_cases hsame : other = location
      · simp [hsame]
      · have hother : old.1 ≠ other := fun h => hsame (h.symm.trans hold)
        simp [hsame, Ne.symm hsame, hother]
    case isFalse hold =>
      by_cases hsame : old.1 = other
      · have hother : other ≠ location := fun h => hold (hsame.trans h)
        simp [hsame, hother]
      · simpa [List.find?_cons, hsame] using ih

theorem get?_put (tree : FileTree) {location : Location} (h : location ≠ []) (entry : Entry)
    (other : Location) :
    (tree.put location entry).get? other =
      if other = location then some entry else tree.get? other := by
  unfold get? put
  by_cases hroot : other = []
  · rw [if_pos hroot, if_pos hroot, if_neg (fun hsame => h (hsame.symm.trans hroot))]
  · rw [if_neg hroot, if_neg hroot]
    exact find?_put entry tree.entries other

theorem get?_put_self (tree : FileTree) {location : Location} (h : location ≠ [])
    (entry : Entry) : (tree.put location entry).get? location = some entry := by
  rw [get?_put tree h, if_pos rfl]

theorem get?_put_of_ne (tree : FileTree) {location other : Location} (h : location ≠ [])
    (entry : Entry) (hne : other ≠ location) :
    (tree.put location entry).get? other = tree.get? other := by
  rw [get?_put tree h, if_neg hne]

theorem get?_root (tree : FileTree) : tree.get? [] = some .directory := if_pos rfl

theorem ne_nil_of_get? {tree : FileTree} {location : Location}
    (h : tree.get? location ≠ some .directory) : location ≠ [] := by
  rintro rfl
  exact h tree.get?_root

/-! ## Following paths -/

/-- Where a segment leads from a directory. -/
def enter (location : Location) (segment : String) : Location :=
  if segment = "" || segment = "." then location
  else if segment = ".." then location.dropLast
  else location ++ [segment]

/-- The locations that segments lead through, the first and the last included. -/
def passed (location : Location) : List String → List Location
  | [] => [location]
  | segment :: segments => location :: passed (enter location segment) segments

theorem enter_idle (location : Location) {segment : String} (h : segment = "" ∨ segment = ".") :
    enter location segment = location :=
  if_pos (by simpa using h)

theorem enter_name (location : Location) {name : String} (h : name ∉ ["", ".", ".."]) :
    enter location name = location ++ [name] := by
  simp only [List.mem_cons, List.not_mem_nil, or_false, not_or] at h
  obtain ⟨hempty, hhere, hparent⟩ := h
  rw [enter, if_neg (by simp [hempty, hhere]), if_neg hparent]

theorem follow_cons (tree : FileTree) (location : Location) (segment : String)
    (segments : List String) :
    tree.follow location (segment :: segments) =
      match tree.get? location with
      | none => .error .notFound
      | some (.file ..) => .error .notDirectory
      | some .directory => tree.follow (enter location segment) segments := by
  rw [follow, enter]
  rcases tree.get? location with _ | _ | _
  · rfl
  · rfl
  · dsimp only
    split
    · rfl
    · split <;> rfl

theorem follow_cons_eq_ok_iff {tree : FileTree} {location reached : Location} {segment : String}
    {segments : List String} :
    tree.follow location (segment :: segments) = .ok reached ↔
      tree.get? location = some .directory ∧
        tree.follow (enter location segment) segments = .ok reached := by
  rw [follow_cons]
  split <;> rename_i hget <;> simp [hget]

theorem follow_append_eq_ok_iff {tree : FileTree} {location reached : Location}
    {front back : List String} :
    tree.follow location (front ++ back) = .ok reached ↔
      ∃ middle, tree.follow location front = .ok middle ∧
        tree.follow middle back = .ok reached := by
  induction front generalizing location with
  | nil => simp [follow]
  | cons segment segments ih =>
    rw [List.cons_append, follow_cons_eq_ok_iff, ih]
    simp only [follow_cons_eq_ok_iff, and_assoc, exists_and_left]

/-- Segments that lead nowhere stay where they start, and that is a directory if there are any. -/
theorem follow_idle {tree : FileTree} {location reached : Location} {segments : List String}
    (hidle : ∀ segment ∈ segments, segment = "" ∨ segment = ".")
    (h : tree.follow location segments = .ok reached) :
    reached = location ∧ (segments ≠ [] → tree.get? location = some .directory) := by
  induction segments generalizing location with
  | nil => exact ⟨(Except.ok.inj h).symm, fun hne => absurd rfl hne⟩
  | cons segment segments ih =>
    obtain ⟨hfirst, hrest⟩ := List.forall_mem_cons.mp hidle
    obtain ⟨hdirectory, hfollow⟩ := follow_cons_eq_ok_iff.mp h
    rw [enter_idle location hfirst] at hfollow
    exact ⟨(ih hrest hfollow).1, fun _ => hdirectory⟩

theorem locate_eq_ok {tree : FileTree} {path : String} {location : Location}
    (h : tree.locate path = .ok location) :
    tree.follow (tree.origin path) (Path.segments path) = .ok location := by
  rw [locate] at h
  split at h
  · cases h
  · exact h

/-- A path that ends in a name and denotes no directory has nothing behind the name. -/
theorem locate_of_endsIn {tree : FileTree} {path : String} {front name : List Char}
    {location : Location} (hends : Path.EndsIn path front name)
    (h : tree.locate path = .ok location) (hfile : tree.get? location ≠ some .directory) :
    Path.segments path = Path.frontSegments front ++ [String.ofList name] ∧
      ∃ above, tree.follow (tree.origin path) (Path.frontSegments front) = .ok above ∧
        location = above ++ [String.ofList name] := by
  obtain ⟨idle, hidle, hsegments⟩ := hends.segments_eq
  have hfollow := locate_eq_ok h
  rw [hsegments] at hfollow
  obtain ⟨above, habove, hrest⟩ := follow_append_eq_ok_iff.mp hfollow
  obtain ⟨-, hbehind⟩ := follow_cons_eq_ok_iff.mp hrest
  rw [enter_name above hends.isName] at hbehind
  obtain ⟨rfl, hdirectory⟩ := follow_idle hidle hbehind
  have hnil : idle = [] := by
    by_contra hne
    exact hfile (hdirectory hne)
  rw [hsegments, hnil]
  exact ⟨rfl, above, habove, rfl⟩

/-! ## Growing trees -/

/-- Every directory stays one, and paths are read from the same place. -/
structure Extends (tree bigger : FileTree) : Prop where
  current : bigger.current = tree.current
  directory : ∀ location, tree.get? location = some .directory →
    bigger.get? location = some .directory

namespace Extends

variable {tree bigger biggest : FileTree}

theorem refl (tree : FileTree) : tree.Extends tree := ⟨rfl, fun _ h => h⟩

theorem trans (h : tree.Extends bigger) (h' : bigger.Extends biggest) : tree.Extends biggest :=
  ⟨h'.current.trans h.current, fun _ hget => h'.directory _ (h.directory _ hget)⟩

theorem put {location : Location} (h : tree.get? location ≠ some .directory) (entry : Entry) :
    tree.Extends (tree.put location entry) := by
  refine ⟨rfl, fun other hget => ?_⟩
  have hne : other ≠ location := by
    rintro rfl
    exact h hget
  rw [get?_put_of_ne tree (ne_nil_of_get? h) entry hne, hget]

theorem follow (h : tree.Extends bigger) {location reached : Location} {segments : List String}
    (hfollow : tree.follow location segments = .ok reached) :
    bigger.follow location segments = .ok reached := by
  induction segments generalizing location with
  | nil => exact hfollow
  | cons segment segments ih =>
    obtain ⟨hdirectory, hrest⟩ := follow_cons_eq_ok_iff.mp hfollow
    exact follow_cons_eq_ok_iff.mpr ⟨h.directory _ hdirectory, ih hrest⟩

theorem locate (h : tree.Extends bigger) {path : String} {location : Location}
    (hlocate : tree.locate path = .ok location) : bigger.locate path = .ok location := by
  have hfollow := h.follow (locate_eq_ok hlocate)
  rw [FileTree.locate] at hlocate ⊢
  split at hlocate
  · cases hlocate
  case isFalse hne =>
    rw [if_neg hne, origin, h.current]
    exact hfollow

end Extends

/-! ## Changing a file -/

/-- A path with a slash behind a name that does not exist. -/
def isMissingDirectory (tree : FileTree) (path : String) : Bool :=
  decide ((Path.segments path).getLast? = some "") && decide ((Path.segments path).dropLast ≠ []) &&
    match tree.follow (tree.origin path) (Path.segments path).dropLast with
    | .ok location => (tree.get? location).isNone
    | .error _ => false

/-- Changes the content of the file at a location. -/
def changeAt (tree : FileTree) (location : Location) (f : ByteArray → ByteArray) :
    Except FileFault FileTree :=
  match tree.get? location with
  | some .directory => .error .isDirectory
  | some (.file content executable) => .ok (tree.put location (.file (f content) executable))
  | none => .ok (tree.put location (.file (f ByteArray.empty) false))

theorem change_eq (tree : FileTree) (path : String) (f : ByteArray → ByteArray) :
    tree.change path f =
      if tree.isMissingDirectory path then .error .isDirectory
      else (tree.locate path).bind fun location => tree.changeAt location f := by
  have hbody : ((tree.locate path).bind fun location => tree.changeAt location f) =
      (do
        let location ← tree.locate path
        match tree.get? location with
        | some .directory => .error .isDirectory
        | some (.file content executable) => .ok (tree.put location (.file (f content) executable))
        | none => .ok (tree.put location (.file (f ByteArray.empty) false))) := rfl
  unfold change isMissingDirectory
  rw [hbody]
  dsimp only
  by_cases hslash : (decide ((Path.segments path).getLast? = some "") &&
      decide ((Path.segments path).dropLast ≠ [])) = true
  · rw [if_pos hslash, hslash, Bool.true_and]
    cases tree.follow (tree.origin path) (Path.segments path).dropLast with
    | error fault => rfl
    | ok location => cases (tree.get? location).isNone <;> rfl
  · rw [if_neg hslash, Bool.eq_false_iff.mpr hslash, Bool.false_and]
    rfl

theorem isMissingDirectory_of_locate {tree : FileTree} {path : String} {location : Location}
    (h : tree.locate path = .ok location) : tree.isMissingDirectory path = false := by
  rw [Bool.eq_false_iff]
  intro hmissing
  simp only [isMissingDirectory, Bool.and_eq_true, decide_eq_true_eq] at hmissing
  obtain ⟨⟨hlast, -⟩, hnone⟩ := hmissing
  obtain ⟨front, hsegments⟩ := List.getLast?_eq_some_iff.mp hlast
  have hfollow := locate_eq_ok h
  rw [hsegments] at hfollow
  rw [hsegments, List.dropLast_concat] at hnone
  -- The slash is passed from where the rest of the path leads, so there is a directory.
  obtain ⟨middle, hmiddle, hslash⟩ := follow_append_eq_ok_iff.mp hfollow
  obtain ⟨hdirectory, -⟩ := follow_cons_eq_ok_iff.mp hslash
  rw [hmiddle] at hnone
  dsimp only at hnone
  rw [hdirectory] at hnone
  cases hnone

/-- Whether the file at a location may be run. -/
def isExecutable (tree : FileTree) (location : Location) : Bool :=
  match tree.get? location with
  | some (.file _ executable) => executable
  | _ => false

/-- The tree with the content of one file changed; a file that is not there is empty. -/
def changed (tree : FileTree) (location : Location) (f : ByteArray → ByteArray) : FileTree :=
  tree.put location
    (.file (f ((tree.content? location).getD ByteArray.empty)) (tree.isExecutable location))

theorem changeAt_eq {tree : FileTree} {location : Location} (f : ByteArray → ByteArray)
    (h : tree.get? location ≠ some .directory) :
    tree.changeAt location f = .ok (tree.changed location f) := by
  unfold changeAt changed content? isExecutable
  split
  · contradiction
  case h_2 hget => rw [hget]; rfl
  case h_3 hget => rw [hget]; rfl

/-- Changing the file at a path changes the one that the path denotes. -/
theorem change_eq_ok {tree after : FileTree} {path : String} {f : ByteArray → ByteArray}
    (h : tree.change path f = .ok after) :
    ∃ location, tree.locate path = .ok location ∧ tree.get? location ≠ some .directory ∧
      after = tree.changed location f := by
  rw [change_eq] at h
  split at h
  · cases h
  · obtain ⟨location, hlocate, hchange⟩ := bind_eq_ok_iff.mp h
    have hfile : tree.get? location ≠ some .directory := by
      intro hget
      rw [changeAt, hget] at hchange
      cases hchange
    rw [changeAt_eq f hfile] at hchange
    exact ⟨location, hlocate, hfile, (Except.ok.inj hchange).symm⟩

theorem change_of_locate {tree : FileTree} {path : String} {location : Location}
    (f : ByteArray → ByteArray) (hlocate : tree.locate path = .ok location)
    (hfile : tree.get? location ≠ some .directory) :
    tree.change path f = .ok (tree.changed location f) := by
  rw [change_eq, isMissingDirectory_of_locate hlocate, hlocate]
  exact changeAt_eq f hfile

section

variable {tree : FileTree} {location : Location} (h : tree.get? location ≠ some .directory)
  (f : ByteArray → ByteArray)

include h

theorem extends_changed : tree.Extends (tree.changed location f) := .put h _

theorem get?_changed_self : (tree.changed location f).get? location =
    some (.file (f ((tree.content? location).getD ByteArray.empty))
      (tree.isExecutable location)) :=
  get?_put_self tree (ne_nil_of_get? h) _

theorem get?_changed_of_ne {other : Location} (hne : other ≠ location) :
    (tree.changed location f).get? other = tree.get? other :=
  get?_put_of_ne tree (ne_nil_of_get? h) _ hne

theorem content?_changed_self : (tree.changed location f).content? location =
    some (f ((tree.content? location).getD ByteArray.empty)) :=
  content?_of_file (get?_changed_self h f)

end

/-! ## Modes and directories -/

/-- What is marked is one file, and its content stays. -/
theorem makeExecutable_eq_ok {tree after : FileTree} {path : String}
    (h : tree.makeExecutable path = .ok after) :
    after = tree ∨ ∃ location content executable,
      tree.get? location = some (.file content executable) ∧
        after = tree.put location (.file content true) := by
  obtain ⟨location, -, h⟩ := bind_eq_ok_iff.mp h
  split at h
  case h_1 => cases h
  case h_2 entry hget =>
    split at h
    case isTrue => cases h
    case isFalse =>
      cases entry with
      | file content executable =>
        exact .inr ⟨location, content, executable, hget, (Except.ok.inj h).symm⟩
      | directory => exact .inl (Except.ok.inj h).symm

/-- The tree after an attempt to mark the file at a path as executable. -/
def Marked (tree : FileTree) (path : String) (after : FileTree) : Prop :=
  after = tree ∨ tree.makeExecutable path = .ok after

namespace Marked

variable {tree after : FileTree} {path : String}

theorem cases_put (h : tree.Marked path after) :
    after = tree ∨ ∃ location content executable,
      tree.get? location = some (.file content executable) ∧
        after = tree.put location (.file content true) :=
  h.elim .inl makeExecutable_eq_ok

theorem content?_eq (h : tree.Marked path after) (location : Location) :
    after.content? location = tree.content? location := by
  obtain rfl | ⟨other, content, executable, hget, rfl⟩ := h.cases_put
  · rfl
  · have hfile : tree.get? other ≠ some .directory := by simp [hget]
    have hne := ne_nil_of_get? hfile
    by_cases hsame : location = other
    · rw [hsame, content?_of_file (tree.get?_put_self hne _), content?_of_file hget]
    · exact content?_congr (tree.get?_put_of_ne hne _ hsame)

theorem grows (h : tree.Marked path after) : tree.Extends after := by
  obtain rfl | ⟨location, content, executable, hget, rfl⟩ := h.cases_put
  · exact .refl after
  · exact .put (by simp [hget]) _

end Marked

/-- A file has been written at a location, and an attempt made to mark it. -/
structure Written (tree : FileTree) (path : String) (location : Location) (text : String)
    (after : FileTree) : Prop where
  located : tree.locate path = .ok location
  isFile : tree.get? location ≠ some .directory
  marked : (tree.changed location fun _ => text.toUTF8).Marked path after

namespace Written

variable {tree after : FileTree} {path text : String} {location other : Location}

theorem grows (h : tree.Written path location text after) : tree.Extends after :=
  (extends_changed h.isFile _).trans h.marked.grows

theorem content?_eq (h : tree.Written path location text after) :
    after.content? location = some text.toUTF8 := by
  rw [h.marked.content?_eq, content?_changed_self h.isFile]

theorem content?_of_ne (h : tree.Written path location text after) (hne : other ≠ location) :
    after.content? other = tree.content? other := by
  rw [h.marked.content?_eq, content?_congr (get?_changed_of_ne h.isFile _ hne)]

end Written

theorem written_of_write {tree written after : FileTree} {path text : String}
    (hwrite : tree.write path text = .ok written) (hmarked : written.Marked path after) :
    ∃ location, tree.Written path location text after := by
  obtain ⟨location, hlocate, hfile, rfl⟩ := change_eq_ok hwrite
  exact ⟨location, hlocate, hfile, hmarked⟩

/-- Nothing has become of a location, or it has become a directory on the way. -/
def Filled (tree bigger : FileTree) (way : List Location) (location : Location) : Prop :=
  bigger.get? location = tree.get? location ∨
    tree.get? location = none ∧ bigger.get? location = some .directory ∧ location ∈ way

theorem Filled.mono {tree bigger : FileTree} {way longer : List Location} {location : Location}
    (h : Filled tree bigger way location) (hway : ∀ other ∈ way, other ∈ longer) :
    Filled tree bigger longer location :=
  h.imp_right fun ⟨hnone, hdirectory, hmem⟩ => ⟨hnone, hdirectory, hway _ hmem⟩

theorem Filled.content?_eq {tree bigger : FileTree} {way : List Location} {location : Location}
    (h : Filled tree bigger way location) :
    bigger.content? location = tree.content? location := by
  obtain hsame | ⟨hnone, hdirectory, -⟩ := h
  · exact content?_congr hsame
  · rw [content?, content?, hnone, hdirectory]

theorem mem_passed_cons {location other : Location} {segment : String} {segments : List String}
    (h : other ∈ passed (enter location segment) segments) :
    other ∈ passed location (segment :: segments) := List.mem_cons_of_mem _ h

theorem mem_passed_self (location : Location) (segments : List String) :
    location ∈ passed location segments := by
  cases segments <;> exact List.mem_cons_self ..

/-- Making what is missing fills locations on the way. -/
theorem filled_makeMissing (tree : FileTree) (location : Location) (segments : List String)
    (other : Location) :
    Filled tree (tree.makeMissing location segments) (passed location segments) other := by
  fun_induction makeMissing tree location segments with
  | case1 => exact .inl rfl
  | case2 tree location segment segments hidle ih =>
    refine ih.mono fun m hmem => mem_passed_cons ?_
    rwa [enter, if_pos hidle]
  | case3 tree location segments hidle ih =>
    refine ih.mono fun m hmem => mem_passed_cons ?_
    rwa [enter, if_neg hidle, if_pos rfl]
  | case4 => exact .inl rfl
  | case5 tree location segment segments hidle hparent next hget ih =>
    refine ih.mono fun m hmem => mem_passed_cons ?_
    rwa [enter, if_neg hidle, if_neg hparent]
  | case6 tree location segment segments hidle hparent next hget ih =>
    have henter : enter location segment = next := by rw [enter, if_neg hidle, if_neg hparent]
    have hne : next ≠ [] := ne_nil_of_get? (by rw [hget]; nofun)
    by_cases hsame : other = next
    · have hmem : other ∈ passed location (segment :: segments) := by
        apply mem_passed_cons
        rw [henter, hsame]
        exact mem_passed_self next segments
      subst hsame
      refine .inr ⟨hget, ?_, hmem⟩
      obtain heq | ⟨-, hdirectory, -⟩ := ih
      · rw [heq, get?_put_self tree hne]
      · exact hdirectory
    · rw [Filled, get?_put_of_ne tree hne _ hsame] at ih
      refine Filled.mono ih fun m hmem => mem_passed_cons ?_
      rwa [henter]

theorem current_makeMissing (tree : FileTree) (location : Location) (segments : List String) :
    (tree.makeMissing location segments).current = tree.current := by
  fun_induction makeMissing tree location segments with
  | case1 => rfl
  | case2 _ _ _ _ _ ih => exact ih
  | case3 _ _ _ _ ih => exact ih
  | case4 => rfl
  | case5 _ _ _ _ _ _ _ _ ih => exact ih
  | case6 _ _ _ _ _ _ _ _ ih => exact ih

theorem extends_makeDirectories (tree : FileTree) (path : String) :
    tree.Extends (tree.makeDirectories path) := by
  refine ⟨current_makeMissing .., fun location hget => ?_⟩
  obtain hsame | ⟨hnone, -⟩ :=
    filled_makeMissing tree (tree.origin path) (Path.segments path) location
  · exact hsame.trans hget
  · rw [hget] at hnone
    cases hnone

/-- The locations that a path leads through. -/
def way (tree : FileTree) (path : String) : List Location :=
  passed (tree.origin path) (Path.segments path)

theorem mem_passed_append {location other : Location} {front back : List String}
    (h : other ∈ passed location (front ++ [""])) : other ∈ passed location (front ++ back) := by
  induction front generalizing location with
  | nil =>
    have hother : other = location := by
      simpa [passed, enter] using h
    rw [hother]
    exact mem_passed_self location back
  | cons segment segments ih =>
    obtain rfl | hmem := List.mem_cons.mp h
    · exact mem_passed_self ..
    · exact mem_passed_cons (ih hmem)

/-- Making the parent of a path fills locations on the way of the path. -/
theorem filled_makeDirectories_parent (tree : FileTree) {path directory : String}
    (h : Path.parent? path = some directory) (location : Location) :
    Filled tree (tree.makeDirectories directory) (tree.way path) location := by
  obtain ⟨front, back, hfront, rfl, rfl⟩ := Path.front_of_parent? h
  have hfilled := filled_makeMissing tree (tree.origin (String.ofList front))
    (Path.segments (String.ofList front)) location
  have hsegments := Path.segments_front hfront []
  obtain rfl | ⟨before, rfl⟩ := hfront
  · -- Without a front there is no directory to make.
    exact .inl rfl
  · refine hfilled.mono fun other hmem => ?_
    have horigin : tree.origin (String.ofList (before ++ ['/'] ++ back)) =
        tree.origin (String.ofList (before ++ ['/'])) := by
      cases before <;> simp [origin, Path.isAbsolute]
    rw [List.append_nil] at hsegments
    rw [hsegments] at hmem
    rw [way, horigin, Path.segments_front (.inr ⟨before, rfl⟩)]
    exact mem_passed_append hmem

end CheckedScript.FileTree
