import Relocate.Disk.Operations
import Relocate.Proofs.Disk.Paths
import Relocate.Proofs.Disk.Withdrawal

/-!
# What writing, making and removing change

A path that can be followed leads into a directory, so a node may be put where it leads. Making and
removing directories changes no file. Writing changes the file that the path leads to and no other.

After a directory has been removed, a path that leads to a file has led to it before, even if the
directory was the current one.
-/
namespace Relocate.Disk

section Writing

variable {disk after : Disk} {path : Text} {content : Content}

/-- What is read is what the file at the path holds. -/
theorem find_of_read (held : disk.read path = .ok content) :
    ∃ place, disk.find path = .ok (place, .file content) := by
  unfold read at held
  split at held
  · simp at held
  · simp at held
  · rename_i place other found
    rw [← Except.ok.inj held]
    exact ⟨place, found⟩

/-- A file that is found is read. -/
theorem read_of_find {place : Place} (found : disk.find path = .ok (place, .file content)) :
    disk.read path = .ok content := by
  simp [read, found]

/-- A path that can be followed leads into a directory. -/
theorem parent_of_locate {location : Location}
    (located : disk.locate path = .ok (.ofLocation location)) :
    disk.tree.get? location.dropLast = some .directory := by
  obtain ⟨-, -, given, followed⟩ := followFrom_ok_iff.mp located
  refine follow_parent (fun empty => ?_) followed
  rw [if_pos (isAbsolute_of_steps_eq_nil given empty)]
  rfl

/-- A tidy path leads where the path did. -/
theorem destination_tidy (absolute : Path.isAbsolute path = true) :
    Path.destination (Path.tidy path) = Path.destination path := by
  rw [Path.destination, Path.destination, steps_tidy absolute, segments_eq_filter,
    Place.after_filter]

/-- Where a file is, no directory is found by the tidy path. Both paths lead to one place, and a
file is no directory. -/
theorem isDirectory_tidy (absolute : Path.isAbsolute path = true) (file : disk.isFile path = true) :
    disk.isDirectory (Path.tidy path) = false := by
  unfold isFile at file
  split at file
  · rename_i place content found
    obtain ⟨located, node, -⟩ := find_file_iff.mp found
    unfold isDirectory
    split
    · rename_i other directory
      obtain ⟨tidied, isDirectory⟩ := find_directory_iff.mp directory
      have tidy : Path.isAbsolute (Path.tidy path) = true :=
        Path.isAbsolute_ofSegments (Path.root_absolute absolute) _
      rw [locate_absolute tidy tidied, destination_tidy absolute,
        ← locate_absolute absolute located, node] at isDirectory
      simp at isDirectory
    · rfl
  · simp at file

/-- A path that leads to no directory leads to a place of the tree. -/
theorem inside_of_not_directory {place : Place} (located : disk.locate path = .ok place)
    (notDirectory : disk.nodeAt place ≠ some .directory) : place.removed = 0 := by
  obtain ⟨-, -, given, followed⟩ := followFrom_ok_iff.mp located
  refine Decidable.byContradiction fun removed => notDirectory (nodeAt_directory_iff.mpr ?_)
  refine directory_of_follow (fun empty => ?_) followed removed
  rw [if_pos (isAbsolute_of_steps_eq_nil given empty)]
  rfl

/-- What a successful write has done. Every check that a write makes first has been passed; a place
that is no directory is one of the tree, so that the path leads to its destination. -/
theorem write_ok (written : disk.write path content = .ok after) :
    disk.locate path = .ok (.ofLocation (disk.destination path)) ∧
      disk.tree.get? (disk.destination path) ≠ some .directory ∧
      wantsDirectory path = false ∧
      after = disk.put (disk.destination path) (.file content) := by
  rw [write] at written
  split at written
  · simp at written
  · rename_i location found
    rw [locateForWrite] at found
    split at found
    · simp at found
    · split at found
      · simp at found
      · rename_i plain
        split at found
        · simp at found
        · rename_i place located
          split at found
          · simp at found
          · rename_i notDirectory
            obtain rfl := locate_destination located (inside_of_not_directory located notDirectory)
            obtain rfl := Except.ok.inj found
            exact ⟨located, notDirectory, by simpa using plain, (Except.ok.inj written).symm⟩

/-- A file may be put where a path leads to no directory. -/
theorem admits_file {location : Location}
    (located : disk.locate path = .ok (.ofLocation location))
    (notDirectory : disk.tree.get? location ≠ some .directory) (content : Content) :
    disk.tree.Admits location (.file content) :=
  ⟨FileTree.below_of_not_directory notDirectory, parent_of_locate located,
    fun directory => absurd directory notDirectory⟩

/-- A directory may be put where a path leads to nothing. -/
theorem admits_directory {location : Location}
    (located : disk.locate path = .ok (.ofLocation location))
    (free : disk.tree.get? location = none) : disk.tree.Admits location .directory :=
  ⟨FileTree.below_of_free free, parent_of_locate located, fun _ => rfl⟩

/-- What is at a location after a write: the written file where the path leads, and what was there
everywhere else. -/
theorem get?_write (written : disk.write path content = .ok after) (location : Location) :
    after.tree.get? location =
      if location = disk.destination path then some (.file content)
      else disk.tree.get? location := by
  obtain ⟨located, notDirectory, -, rfl⟩ := write_ok written
  exact FileTree.get?_put (admits_file located notDirectory content) location

/-- A write changes the file that the path leads to and no other. -/
theorem fileAt_write (written : disk.write path content = .ok after) (location : Location) :
    after.tree.fileAt location =
      if location = disk.destination path then some content else disk.tree.fileAt location := by
  grind [FileTree.fileAt, get?_write written location]

/-- A write neither makes a directory nor removes one. -/
theorem directory_write_iff (written : disk.write path content = .ok after) {location : Location} :
    after.tree.get? location = some .directory ↔ disk.tree.get? location = some .directory := by
  grind [get?_write written location, (write_ok written).2.1]

/-- Writing a file takes no directory away, so that every path leads on to where it led before. -/
theorem keepsDirectories_write (written : disk.write path content = .ok after) :
    disk.KeepsDirectories after := by
  refine ⟨?_, fun location directory => (directory_write_iff written).mpr directory⟩
  obtain ⟨-, -, -, rfl⟩ := write_ok written
  rfl

/-- What has been written is read. -/
theorem find_write (written : disk.write path content = .ok after) :
    after.find path = .ok (.ofLocation (disk.destination path), .file content) := by
  obtain ⟨located, -, plain, -⟩ := write_ok written
  have file := fileAt_write written (disk.destination path)
  rw [if_pos rfl] at file
  exact find_file_iff.mpr
    ⟨(keepsDirectories_write written).locate located, nodeAt_file_iff.mpr ⟨rfl, file⟩, plain⟩

end Writing

section Making

variable {disk after : Disk} {path : Text}

/-- The disk with more directories and nothing else changed. -/
structure Made (before after : Disk) : Prop where
  keeps : before.KeepsDirectories after
  files : ∀ location, after.tree.fileAt location = before.tree.fileAt location

/-- What making one directory has done. -/
theorem makeDirectory_ok (made : disk.makeDirectory path = .ok after) :
    disk.locate path = .ok (.ofLocation (disk.destination path)) ∧
      disk.tree.get? (disk.destination path) = none ∧
      after = disk.put (disk.destination path) .directory := by
  rw [makeDirectory] at made
  split at made
  · simp at made
  · rename_i place located
    split at made
    · simp at made
    · rename_i notSome
      have free : disk.nodeAt place = none := by simpa using notSome
      obtain rfl := locate_destination located (inside_of_not_directory located (by simp [free]))
      exact ⟨located, free, (Except.ok.inj made).symm⟩

/-- What is at a location after a directory has been made. -/
theorem get?_makeDirectory (made : disk.makeDirectory path = .ok after) (location : Location) :
    after.tree.get? location =
      if location = disk.destination path then some .directory else disk.tree.get? location := by
  obtain ⟨located, free, rfl⟩ := makeDirectory_ok made
  exact FileTree.get?_put (admits_directory located free) location

/-- Making one directory adds it and nothing else: where it is made there was nothing before. -/
theorem made_makeDirectory (made : disk.makeDirectory path = .ok after) : Made disk after := by
  obtain ⟨located, free, same⟩ := makeDirectory_ok made
  refine ⟨⟨by rw [same]; rfl, fun location directory => ?_⟩, fun location => ?_⟩
  · grind [get?_makeDirectory made location]
  · rw [same]
    exact FileTree.fileAt_put_directory (admits_directory located free) free location

/-- An absolute path has nothing made deeper than it has segments. -/
theorem shallow_makeDirectory (absolute : Path.isAbsolute path = true)
    (made : disk.makeDirectory path = .ok after) {location : Location}
    (deep : (steps path).length < location.length) :
    after.tree.get? location = disk.tree.get? location := by
  have bound := Place.length_after (.ofLocation []) (steps path)
  have apart : location ≠ disk.destination path := by
    rintro rfl
    rw [destination_absolute disk absolute, Path.destination] at deep
    simp only [Place.ofLocation, List.length_nil] at deep bound
    omega
  grind [get?_makeDirectory made location]

/-- A directory with those above it is made by making single directories, each of a path that is the
given one or lies above it. What holds from disk to disk for each of them holds for the whole. -/
theorem makeDirectoriesWith_related (related : Disk → Disk → Prop) (made : Text → Prop)
    (refl : ∀ disk, related disk disk)
    (trans : ∀ first second third, related first second → related second third →
      related first third)
    (single : ∀ disk after path, made path → disk.makeDirectory path = .ok after →
      related disk after)
    (parent : ∀ path, made path → made (Path.parent path)) {above : Nat} {error : Option OsError}
    (start : made path) (result : makeDirectoriesWith above disk path = (after, error)) :
    related disk after := by
  have settled {disk after : Disk} {path : Text} {outcome : Except OsError Disk}
      {error : Option OsError} (done : ∀ disk', outcome = .ok disk' → related disk disk')
      (result : makeDirectoriesWith.settle disk path outcome = (after, error)) :
      related disk after := by
    cases outcome with
    | ok disk' =>
      obtain ⟨rfl, -⟩ := Prod.mk.inj result
      exact done disk' rfl
    | error failure =>
      have same : disk = after := by
        rw [makeDirectoriesWith.settle] at result
        split at result <;> exact (Prod.mk.inj result).1
      exact same ▸ refl disk
  induction above generalizing disk after path error with
  | zero =>
    rw [makeDirectoriesWith] at result
    split at result
    · rename_i alone
      obtain ⟨rfl, -⟩ := Prod.mk.inj result
      exact single _ _ _ start alone
    · exact settled (by simp) result
  | succ above inductionHypothesis =>
    rw [makeDirectoriesWith] at result
    split at result
    · rename_i alone
      obtain ⟨rfl, -⟩ := Prod.mk.inj result
      exact single _ _ _ start alone
    · simp only at result
      split at result
      · split at result
        all_goals
          rename_i parents
          have first := inductionHypothesis (parent path start) parents
        · obtain ⟨rfl, -⟩ := Prod.mk.inj result
          exact first
        · exact trans _ _ _ first (settled (fun disk' => single _ disk' _ start) result)
      · exact settled (by simp) result

/-- A disk is made from itself by adding no directory. -/
theorem Made.refl (disk : Disk) : Made disk disk :=
  ⟨⟨rfl, fun _ found => found⟩, fun _ => rfl⟩

/-- Directories may be added in several steps. -/
theorem Made.trans {first second third : Disk} (earlier : Made first second)
    (later : Made second third) : Made first third :=
  ⟨earlier.keeps.trans later.keeps,
    fun location => (later.files location).trans (earlier.files location)⟩

/-- Making a directory with those above it, even if it fails, only adds directories. -/
theorem made_makeDirectories {error : Option OsError}
    (result : disk.makeDirectories path = (after, error)) : Made disk after :=
  makeDirectoriesWith_related Made _ Made.refl (fun _ _ _ => Made.trans)
    (fun _ _ _ (_ : True) => made_makeDirectory) (fun _ _ => trivial) trivial result

/-- The directory above has no more segments. -/
theorem length_steps_parent (absolute : Path.isAbsolute path = true) :
    (steps (Path.parent path)).length ≤ (steps path).length := by
  simpa [absolute, segments_eq_filter]
    using Nat.le_trans (Nat.sub_le _ _) (List.length_filter_le _ _)

/-- Nothing is made deeper than an absolute path has segments. -/
theorem shallow_makeDirectories {error : Option OsError} (absolute : Path.isAbsolute path = true)
    (result : disk.makeDirectories path = (after, error)) {location : Location}
    (deep : (steps path).length < location.length) :
    after.tree.get? location = disk.tree.get? location := by
  refine makeDirectoriesWith_related
    (fun before after => after.tree.get? location = before.tree.get? location)
    (fun path => Path.isAbsolute path = true ∧ (steps path).length < location.length)
    (fun _ => rfl) (fun _ _ _ before after => after.trans before)
    (fun _ _ _ short made => shallow_makeDirectory short.1 made short.2) ?_ ⟨?_, ?_⟩ result
  · rintro path ⟨absolute, short⟩
    exact ⟨Path.isAbsolute_ofSegments (Path.root_absolute absolute) _,
      Nat.lt_of_le_of_lt (length_steps_parent absolute) short⟩
  · exact Path.isAbsolute_ofSegments (Path.root_absolute absolute) _
  · simpa [absolute, segments_eq_filter] using Nat.lt_of_le_of_lt (List.length_filter_le _ _) deep

/-- Making the directories of a path without `..` makes none but those on its way. This holds of
each single directory that is made, since its path has the first segments of the given one, and adds
up over them. -/
theorem directory_of_makeDirectories {location : Location} (forward : ['.', '.'] ∉ steps path)
    (found : (disk.makeDirectories path).1.tree.get? location = some .directory) :
    disk.tree.get? location = some .directory ∨ location <+: disk.destination path := by
  refine (makeDirectoriesWith_related
    (fun before after => before.cwd = disk.cwd → after.cwd = disk.cwd ∧
      ∀ location, after.tree.get? location = some .directory →
        before.tree.get? location = some .directory ∨ location <+: disk.destination path)
    (fun other => Path.isAbsolute other = Path.isAbsolute path ∧
      Path.segments other <+: Path.segments path)
    (fun _ same => ⟨same, fun _ found => .inl found⟩) ?_ ?_ ?_ ⟨?_, ?_⟩ rfl rfl).2
    location found
  · intro first second third earlier later same
    obtain ⟨sameSecond, fromFirst⟩ := earlier same
    obtain ⟨sameThird, fromSecond⟩ := later sameSecond
    exact ⟨sameThird, fun location found => (fromSecond location found).elim (fromFirst location)
      .inr⟩
  · rintro before after other ⟨absolute, inside⟩ made same
    refine ⟨(made_makeDirectory made).keeps.1.trans same, fun location found => ?_⟩
    rw [get?_makeDirectory made] at found
    split at found
    · rename_i here
      have noUp : ['.', '.'] ∉ steps other := by
        intro up
        have segment : ['.', '.'] ∈ Path.segments other := by simp [segments_eq_filter, up]
        have among := inside.subset segment
        rw [segments_eq_filter] at among
        exact forward (List.mem_filter.mp among).1
      have origin : before.origin other = disk.origin path := by simp [origin, absolute, same]
      rw [here, destination_forward _ noUp, destination_forward _ forward, ← segments_eq_filter,
        ← segments_eq_filter, origin]
      exact .inr ((List.prefix_append_right_inj _).mpr inside)
    · exact .inl found
  · rintro other ⟨absolute, inside⟩
    rw [isAbsolute_parent, segments_parent]
    exact ⟨absolute, (List.dropLast_prefix _).trans inside⟩
  · exact isAbsolute_tidy path
  · exact segments_tidy path ▸ List.prefix_rfl

/-- The directories that are made for something at a path without `..` are those above it. The
directory of a path that ends in a name leads to the place above it. -/
theorem directory_of_makeParents {location : Location} (forward : Path.isForward path = true)
    (found : (disk.makeDirectories (Path.directory path)).1.tree.get? location = some .directory) :
    disk.tree.get? location = some .directory ∨
      location <+: (disk.destination path).dropLast := by
  obtain ⟨above, name, split, notHere, noUp, plain⟩ := isForward_iff.mp forward
  have steps : steps (Path.directory path) = above := by
    rw [steps_directory plain, split, List.dropLast_concat]
  have noUpAbove : ['.', '.'] ∉ above := fun up => noUp (split ▸ List.mem_append_left _ up)
  have parent : disk.destination (Path.directory path) = (disk.destination path).dropLast := by
    rw [destination_forward _ (steps ▸ noUpAbove), destination_forward _ noUp, steps, split, origin,
      origin, isAbsolute_directory_eq, List.filter_append,
      List.filter_cons_of_pos (by simpa using notHere), List.filter_nil, ← List.append_assoc,
      List.dropLast_concat]
  rw [← parent]
  exact directory_of_makeDirectories (steps ▸ noUpAbove) found

end Making

section Removing

variable {disk after : Disk} {path : Text} {location : Location}

/-- A path that ends in a name leads to a location that ends in it. -/
theorem exists_above_of_last {place : Place} {last : Text} (located : disk.locate path = .ok place)
    (named : (steps path).getLast? = some last) (notSame : last ≠ ['.'])
    (notUp : last ≠ ['.', '.']) : ∃ above : Location, place = .ofLocation (above ++ [last]) := by
  obtain ⟨-, -, -, followed⟩ := followFrom_ok_iff.mp located
  obtain ⟨earlier, split⟩ := List.getLast?_eq_some_iff.mp named
  rw [follow_ok followed, split, Place.after, List.foldl_append, List.foldl_cons, List.foldl_nil,
    Place.next, if_neg notSame, if_neg notUp]
  exact ⟨_, rfl⟩

/-- Only an empty directory below the top is removed. The path ends in a name, since a last segment
of dots is refused, and so the directory is below the top. -/
theorem removeDirectory_ok (removed : disk.removeDirectory path = .ok after) :
    disk.destination path ≠ [] ∧ disk.tree.get? (disk.destination path) = some .directory ∧
      disk.tree.children (disk.destination path) = [] ∧
      after = disk.eraseDirectory (disk.destination path) := by
  rw [removeDirectory] at removed
  split at removed
  · simp at removed
  · rename_i place located
    split at removed
    · simp at removed
    · simp at removed
    · simp at removed
    · rename_i last notSame notUp named
      obtain ⟨above, rfl⟩ := exists_above_of_last located named notSame notUp
      have here : above ++ [last] = disk.destination path :=
        congrArg Place.location (locate_destination located rfl)
      rw [← here]
      split at removed
      · simp at removed
      · simp at removed
      · rename_i directory
        split at removed
        · rename_i empty
          exact ⟨by simp, directory, List.isEmpty_iff.mp empty, (Except.ok.inj removed).symm⟩
        · simp at removed

/-- If a path leads to a place of the tree after a directory has been removed, it has led there
before. The current directory may be the removed one, of which only the way up is left. -/
theorem follow_of_eraseDirectory (below : location ≠ [])
    (directory : disk.tree.get? location = some .directory) {place left result : Place}
    {segments : List Text}
    (related : left = place ∨
      place.location = location ∧ left = ⟨location.dropLast, place.removed + 1⟩)
    (followed : (disk.eraseDirectory location).follow left segments = .ok result)
    (inside : result.removed = 0) : disk.follow place segments = .ok result := by
  induction segments generalizing place left with
  | nil =>
    obtain rfl := Except.ok.inj followed
    obtain rfl | ⟨-, rfl⟩ := related
    · rfl
    · simp at inside
  | cons segment segments inductionHypothesis =>
    obtain ⟨node, next, stepped, later⟩ := follow_cons_ok_iff.mp followed
    obtain rfl | ⟨rfl, rfl⟩ := related
    · refine follow_cons_ok_iff.mpr ⟨?_, next, stepped, inductionHypothesis (.inl rfl) later⟩
      rw [nodeAt_directory_iff] at node ⊢
      exact FileTree.get?_of_erase below node
    · obtain ⟨here, removed⟩ := place
      have node : disk.nodeAt ⟨here, removed⟩ = some .directory :=
        nodeAt_directory_iff.mpr directory
      unfold Place.step at stepped
      split at stepped
      · rename_i same
        obtain rfl := Except.ok.inj stepped
        refine follow_cons_ok_iff.mpr ⟨node, ⟨here, removed⟩, by simp [Place.step, same], ?_⟩
        exact inductionHypothesis (.inr ⟨rfl, rfl⟩) later
      · rename_i notSame
        split at stepped
        · rename_i up
          obtain rfl := Except.ok.inj stepped
          refine follow_cons_ok_iff.mpr ⟨node, Place.up ⟨here, removed⟩, ?_, ?_⟩
          · simp [Place.step, up]
          · refine inductionHypothesis ?_ later
            cases removed with
            | zero => exact .inl rfl
            | succ removed => exact .inr ⟨rfl, rfl⟩
        · simp at stepped

/-- The disk with fewer directories and no file changed. -/
structure Pruned (before after : Disk) : Prop where
  files : ∀ location, after.tree.fileAt location = before.tree.fileAt location
  found : ∀ path place content, after.find path = .ok (place, .file content) →
    before.find path = .ok (place, .file content)
  cwd : before.cwd.Withdrawn after.cwd
  directories : ∀ location, after.tree.get? location = some .directory →
    before.tree.get? location = some .directory
  stays : after.tree.get? before.cwd.location = some .directory → after.cwd = before.cwd

/-- A disk that stays as it is has lost nothing. -/
theorem Pruned.refl (disk : Disk) : Pruned disk disk :=
  ⟨fun _ => rfl, fun _ _ _ found => found, .refl _, fun _ directory => directory, fun _ => rfl⟩

/-- What two removals leave in turn is left by both together. -/
theorem Pruned.trans {first second third : Disk} (before : Pruned first second)
    (after : Pruned second third) : Pruned first third where
  files := fun location => (after.files location).trans (before.files location)
  found := fun path place content found =>
    before.found path place content (after.found path place content found)
  cwd := before.cwd.trans after.cwd
  directories := fun location directory =>
    before.directories location (after.directories location directory)
  stays := fun directory => by
    have same := before.stays (after.directories _ directory)
    rw [← same] at directory
    rw [after.stays directory, same]

/-- Removing an empty directory leaves every file where it was and found by the paths that led to
it. The current directory stays, unless it is the removed one. -/
theorem pruned_removeDirectory (removed : disk.removeDirectory path = .ok after) :
    Pruned disk after := by
  obtain ⟨below, directory, empty, rfl⟩ := removeDirectory_ok removed
  generalize disk.destination path = location at below directory empty
  have files := FileTree.fileAt_erase_directory below directory empty
  have stays (still : (disk.tree.erase location).get? disk.cwd.location = some .directory) :
      disk.cwd.afterRemoval location = disk.cwd := by
    rw [FileTree.get?_erase_leaf below (FileTree.children_eq_nil_iff.mp empty)] at still
    split at still
    · simp at still
    · rename_i apart
      rw [Place.afterRemoval, if_neg apart]
  refine ⟨files, ?_, Place.withdrawn_afterRemoval _ below,
    fun _ => FileTree.get?_of_erase below, stays⟩
  intro path place content found
  obtain ⟨located, node, plain⟩ := find_file_iff.mp found
  obtain ⟨inside, file⟩ := nodeAt_file_iff.mp node
  obtain ⟨null, fits, given, followed⟩ := followFrom_ok_iff.mp located
  refine find_file_iff.mpr ⟨followFrom_ok_iff.mpr ⟨null, fits, given, ?_⟩,
    nodeAt_file_iff.mpr ⟨inside, (files _).symm.trans file⟩, plain⟩
  refine follow_of_eraseDirectory below directory ?_ followed (by rw [inside]; rfl)
  split
  · exact .inl rfl
  · rw [eraseDirectory, Place.afterRemoval]
    split
    · rename_i here
      exact .inr ⟨here, rfl⟩
    · exact .inl rfl

end Removing

end Relocate.Disk
