import Mathlib.Data.List.Forall2
import Mathlib.Data.List.Nodup
import Relocate.Rename.Directory
import Relocate.Proofs.Actions
import Relocate.Proofs.Disk.NormalPaths
import Relocate.Proofs.SourceFiles
import Relocate.Proofs.SourceNames

/-!
# The files that are moved with a directory

A directory is renamed by moving every file that a walk lists below it, by its normalized path:
`directoryMoves_ok`. Where the file goes is settled by the text of this path, from which as many
characters are taken as the path of the directory has.

Where no backslash and no second slash in front is in play, the paths are those of the locations of
the files, each once: `directoryMoves_sources`. Where the path of the directory is normalized itself
(`isNormalDirectory`), every file goes to the same place below the new directory:
`directoryMoves_between`.
-/
namespace Relocate

open Action

/-- What the paths of the files below a directory start with. -/
def directoryStart (path : Text) : Text := Text.trimEnd '/' path ++ ['/']

section Listing

variable {world : World}

/-- Listing the files below a directory only asks, and fails only for a null character in the path.
-/
theorem asks_walk (path : Text) : Asks (walk path) :=
  (asks_checkPath path).bind fun _ => asks_told (·.walk path)

/-- The files that are listed are those that the disk finds. Once the path has passed its check,
listing asks the disk as it is at that moment and cannot fail: what is no directory has no files
below it. -/
theorem run_walk_ok {path : Text} {paths : List Text}
    (walked : ((walk path).run world).1 = .ok paths) : world.disk.walk path = paths := by
  obtain ⟨-, middle, -, disk, rest⟩ := (asks_checkPath path).run_bind_ok rfl (Prod.ext walked rfl)
  rw [← disk]
  exact Except.ok.inj (congrArg Prod.fst rest)

/-- Several paths are normalized one by one. -/
theorem normalizeAll_ok {paths normals : List Text}
    (asked : ((normalizeAll paths).run world).1 = .ok normals) :
    List.Forall₂ (fun path normal => world.disk.normalize path = .ok normal) paths normals := by
  induction paths generalizing normals with
  | nil =>
    obtain rfl := Except.ok.inj asked
    exact .nil
  | cons path paths inductionHypothesis =>
    obtain ⟨first, middle, normal, disk, rest⟩ :=
      (asks_normalize path).run_bind_ok rfl (Prod.ext asked rfl)
    obtain ⟨others, last, later, -, rest⟩ := (asks_normalizeAll paths).run_bind_ok disk rest
    obtain rfl := Except.ok.inj (congrArg Prod.fst rest)
    exact .cons (run_normalize_ok normal) (inductionHypothesis later)

/-- What is related to the items in order are the values of a function, if each of them is. -/
theorem eq_map_of_forall₂ {α β : Type} {related : α → β → Prop} {f : α → β} {items : List α}
    {values : List β} (all : List.Forall₂ related items values)
    (same : ∀ item ∈ items, ∀ value, related item value → value = f item) :
    values = items.map f := by
  induction all with
  | nil => rfl
  | cons first _ inductionHypothesis =>
    simp only [List.forall_mem_cons] at same
    rw [List.map_cons, same.1 _ first, inductionHypothesis same.2]

/-- The path of a location of names is normalized to itself. -/
theorem normalize_of_path {disk : Disk} {location : Location} {normal : Text}
    (named : location.Named) (normalized : disk.normalize location.path = .ok normal) :
    normal = location.path := by
  rw [Disk.normalize_of_absolute (isAbsolute_path location)] at normalized
  rw [← Except.ok.inj normalized]
  exact normalize_path named

/-- The paths of named locations are normalized already. -/
theorem normalizeAll_paths {paths normals : List Text}
    (canonical : ∀ path ∈ paths, ∃ location : Location, location.Named ∧ path = location.path)
    (asked : ((normalizeAll paths).run world).1 = .ok normals) : normals = paths := by
  rw [eq_map_of_forall₂ (normalizeAll_ok asked) (f := id), List.map_id]
  intro path member normal normalized
  obtain ⟨location, named, rfl⟩ := canonical path member
  exact normalize_of_path named normalized

end Listing

/-- Where something below a directory is, by the text of the directory's path. -/
def Disk.locationBelow (disk : Disk) (path : Text) (names : Location) : Location :=
  disk.destination (directoryStart path) ++ names

section Below

variable {disk : Disk} {path : Text} {root below : Location} {extensions : List Text}

/-- A path that ends in a slash is continued by names. -/
theorem pathBelow_directoryStart (named : below.Named) :
    Disk.pathBelow (directoryStart path) below = directoryStart path ++ Text.join ['/'] below := by
  simp [Disk.pathBelow, Path.append, Path.isAbsolute_join named.isSegment, directoryStart,
    Text.endsWith, List.isPrefixOf]

/-- A path that leads to a directory leads somewhere. -/
theorem locate_of_findDirectory {place : Place} (reached : disk.findDirectory path = .ok place) :
    disk.locate path = .ok place := by
  unfold Disk.findDirectory at reached
  split at reached
  · simp at reached
  · simp at reached
  · rename_i found
    obtain rfl := Except.ok.inj reached
    exact (Disk.find_directory_iff.mp found).1

/-- What is below a directory starts where the directory's path starts. -/
@[simp] theorem isAbsolute_pathBelow (named : below.Named) :
    Path.isAbsolute (Disk.pathBelow (directoryStart path) below) =
      Path.isAbsolute (directoryStart path) := by
  rw [pathBelow_directoryStart named, directoryStart]
  cases Text.trimEnd '/' path with
  | nil => rfl
  | cons c rest =>
    rw [Bool.eq_iff_iff, Path.isAbsolute_iff, Path.isAbsolute_iff]
    simp

/-- A path below a directory starts from where the directory's path starts. -/
@[simp] theorem origin_pathBelow (named : below.Named) :
    disk.origin (Disk.pathBelow (directoryStart path) below) =
      disk.origin (directoryStart path) := by
  simp [Disk.origin, named]

/-- The path of an absolute directory starts at the top, also if it is the top itself. -/
theorem isAbsolute_directoryStart (absolute : Path.isAbsolute path = true) :
    Path.isAbsolute (directoryStart path) = true := by
  obtain ⟨rest, rfl⟩ := Path.isAbsolute_iff.mp absolute
  obtain ⟨more, whole⟩ := Disk.exists_trimEnd '/' ('/' :: rest)
  rw [directoryStart]
  cases trimmed : Text.trimEnd '/' ('/' :: rest) with
  | nil => rfl
  | cons c others =>
    rw [trimmed, List.cons_append] at whole
    rw [(List.cons.inj whole).1]
    rfl

/-- Ending the path of a directory in a slash brings no other character into it. -/
theorem not_mem_directoryStart {c : Char} (other : c ≠ '/') (absent : c ∉ path) :
    c ∉ directoryStart path := by
  obtain ⟨more, whole⟩ := Disk.exists_trimEnd '/' path
  intro member
  obtain inside | slash := List.mem_append.mp member
  · exact absent (whole ▸ List.mem_append_left _ inside)
  · exact other (List.mem_singleton.mp slash)

/-- The path of a directory that ends in a name gets a slash. -/
theorem directoryStart_join {start : Text} (named : root.Named) (nonempty : root ≠ []) :
    directoryStart (start ++ Text.join ['/'] root) = start ++ Text.join ['/'] root ++ ['/'] := by
  obtain ⟨run, c, other, same⟩ := Path.exists_join_concat named.isSegment nonempty
  rw [directoryStart, same, ← List.append_assoc]
  simp [Text.trimEnd, Text.trimStart, other]

/-- Ending the path of a directory in a slash does not change where it leads. -/
@[simp] theorem steps_directoryStart (path : Text) :
    Disk.steps (directoryStart path) = Disk.steps path := by
  rw [directoryStart, Disk.steps_append, Disk.steps_trimEnd]
  simp [Disk.steps, Text.split]

/-- What is below a directory is reached by the steps to the directory and then by its names. -/
@[simp] theorem steps_pathBelow (named : below.Named) :
    Disk.steps (Disk.pathBelow (directoryStart path) below) = Disk.steps path ++ below := by
  rw [pathBelow_directoryStart named, directoryStart, List.append_assoc, List.singleton_append,
    Disk.steps_append, Disk.steps_trimEnd, Disk.steps_join named.isSegment]

/-- What is below a directory leads below where the directory's path leads. -/
@[simp] theorem destination_pathBelow (named : below.Named) :
    disk.destination (Disk.pathBelow (directoryStart path) below) =
      disk.locationBelow path below := by
  have forward : ['.', '.'] ∉ below := fun up => (named.plain _ up).2 rfl
  have names : below.filter (· ≠ ['.']) = below :=
    List.filter_eq_self.mpr fun name member => by simpa using (named.plain name member).1
  rw [Disk.locationBelow, Disk.destination, Disk.destination, origin_pathBelow named,
    steps_pathBelow named, steps_directoryStart, Place.after, List.foldl_append]
  change (Place.after (Place.after _ _) below).location = _
  rw [Place.location_after forward, names]

/-- Where a path below a directory leads depends on where the directory's path starts from, and on
nothing else of the disk. -/
theorem locationBelow_of_origin {other : Disk}
    (same : other.origin (directoryStart path) = disk.origin (directoryStart path)) :
    other.locationBelow path below = disk.locationBelow path below := by
  rw [Disk.locationBelow, Disk.destination, same]
  rfl

/-- The path of a file below a directory ends in a name and so does not ask for a directory. -/
@[simp] theorem wantsDirectory_pathBelow (named : below.Named) (nonempty : below ≠ []) :
    Disk.wantsDirectory (Disk.pathBelow (directoryStart path) below) = false := by
  obtain ⟨start, c, other, same⟩ := Path.exists_join_concat named.isSegment nonempty
  rw [pathBelow_directoryStart named, same]
  simp [Disk.wantsDirectory, Text.endsWith, List.isPrefixOf, other.symm]

/-- What is below a directory has a path that never goes back if the directory has one. -/
@[simp] theorem isForward_pathBelow (named : below.Named) (nonempty : below ≠ [])
    (forward : ['.', '.'] ∉ Disk.steps path) :
    Path.isForward (Disk.pathBelow (directoryStart path) below) = true := by
  obtain ⟨above, last, rfl⟩ : ∃ above last, below = above ++ [last] :=
    ⟨_, _, (List.dropLast_concat_getLast nonempty).symm⟩
  refine isForward_iff.mpr ⟨Disk.steps path ++ above, last, ?_, ?_, ?_,
    wantsDirectory_pathBelow named nonempty⟩
  · simp [named]
  · exact (named.plain last (by simp)).1
  · rw [steps_pathBelow named, List.mem_append, not_or]
    exact ⟨forward, fun up => (named.plain _ up).2 rfl⟩

/-- What is below a directory of an ordinary path has an ordinary path. By cases on how many
characters are left of the directory's path after trimming, as it must not come to start with two
slashes. -/
theorem isOrdinary_pathBelow (ordinary : Path.isOrdinary path = true) (named : below.Named)
    (nonempty : below ≠ []) :
    Path.isOrdinary (Disk.pathBelow (directoryStart path) below) = true := by
  obtain ⟨clean, single⟩ := isOrdinary_iff.mp ordinary
  obtain ⟨more, whole⟩ := Disk.exists_trimEnd '/' path
  rw [pathBelow_directoryStart named, directoryStart, List.append_assoc, List.singleton_append]
  refine isOrdinary_iff.mpr ⟨?_, ?_⟩
  · have noBackslash := not_mem_path named
    rw [Location.path] at noBackslash
    intro member
    obtain inside | behind := List.mem_append.mp member
    · exact clean (whole ▸ List.mem_append_left _ inside)
    · exact noBackslash behind
  · rw [Bool.eq_false_iff]
    intro double
    cases trimmed : Text.trimEnd '/' path with
    | nil =>
      obtain ⟨c, rest, other, same⟩ := Path.exists_join named.isSegment nonempty
      rw [trimmed, same] at double
      simp [Text.startsWith, List.isPrefixOf, other.symm] at double
    | cons c rest =>
      rw [trimmed] at double whole
      cases rest with
      | nil =>
        have slash : '/' = c := by simpa [Text.startsWith, List.isPrefixOf] using double
        have last : (Text.trimEnd '/' path).reverse.head? = some '/' := by simp [trimmed, ← slash]
        rw [Text.trimEnd, List.reverse_reverse, Text.trimStart] at last
        have other := List.head?_dropWhile_not (fun c => decide (c = '/')) path.reverse
        simp [last] at other
      | cons d rest =>
        rw [← whole] at single
        simp [Text.startsWith, List.isPrefixOf] at double single
        exact single double.1 double.2

/-- No file is above another one. -/
theorem not_above_of_files {names other : Location} {content held : Content}
    (file : disk.tree.fileAt (root ++ names) = some content)
    (there : disk.tree.fileAt (root ++ other) = some held) (proper : other ≠ []) :
    ¬names <+: other.dropLast := by
  rintro ⟨more, split⟩
  have whole : root ++ other = root ++ names ++ (more ++ [other.getLast proper]) := by
    rw [List.append_assoc, ← List.append_assoc names, split, List.dropLast_concat_getLast]
  rw [whole, FileTree.fileAt_eq_some_iff] at there
  rw [FileTree.fileAt_eq_some_iff, FileTree.above there (by simp)] at file
  simp at file

/-- While the files below one location are moved to below another one, no directory comes to where
one of them is to go, if there was none at first. Directories are made above the new places of files
that have been moved, and the file itself would then lie above another one. -/
theorem not_directory_of_files {current : Disk} {newRoot names : Location} {done : List Location}
    (directories : ∀ location, current.tree.get? location = some .directory →
      disk.tree.get? location = some .directory ∨
        ∃ earlier ∈ done, location <+: newRoot ++ earlier.dropLast)
    (files : ∀ other ∈ names :: done, other ≠ [] ∧
      ∃ content, disk.tree.fileAt (root ++ other) = some content)
    (first : disk.tree.get? (newRoot ++ names) ≠ some .directory) :
    current.tree.get? (newRoot ++ names) ≠ some .directory := by
  intro directory
  obtain before | ⟨earlier, finished, inside⟩ := directories _ directory
  · exact first before
  · obtain ⟨-, content, file⟩ := files names List.mem_cons_self
    obtain ⟨proper, held, there⟩ := files earlier (List.mem_cons_of_mem _ finished)
    exact not_above_of_files file there proper ((List.prefix_append_right_inj _).mp inside)

/-- Only the name of a file below a directory counts for its extension. -/
theorem isSource_pathBelow (plain : ∀ extension ∈ extensions, '/' ∉ extension) {above : Location}
    {name : Text} (named : Location.Named (above ++ [name])) :
    isSource extensions (Disk.pathBelow (directoryStart path) (above ++ [name])) =
      isSource extensions name := by
  rw [pathBelow_directoryStart named, directoryStart, List.append_assoc, List.singleton_append]
  cases above with
  | nil => exact isSource_slash plain _ _
  | cons first others =>
    have split : Text.trimEnd '/' path ++ '/' :: Text.join ['/'] (first :: others ++ [name]) =
        (Text.trimEnd '/' path ++ '/' :: Text.join ['/'] (first :: others)) ++ '/' :: name := by
      simp [Text.join_cons]
    rw [split, isSource_slash plain]

/-- A file has one of the extensions by its location if it has one by its path, also below another
directory. -/
theorem isSource_locationBelow (plain : ∀ extension ∈ extensions, '/' ∉ extension)
    (named : below.Named) (nonempty : below ≠ []) (other : Text) :
    isSource extensions (disk.locationBelow path below).path =
      isSource extensions (Disk.pathBelow (directoryStart other) below) := by
  obtain ⟨above, last, rfl⟩ : ∃ above last, below = above ++ [last] :=
    ⟨_, _, (List.dropLast_concat_getLast nonempty).symm⟩
  rw [Disk.locationBelow, ← List.append_assoc, isSource_path plain, isSource_pathBelow plain named]

/-- A directory can be walked if a file below it can be read. Following the path of the file passes
through the directory, from which a name is looked up. -/
theorem findDirectory_of_read {content : Content} (named : below.Named) (nonempty : below ≠ [])
    (read : disk.read (Disk.pathBelow (directoryStart path) below) = .ok content) :
    disk.findDirectory (directoryStart path) =
      .ok (.ofLocation (disk.destination (directoryStart path))) := by
  obtain ⟨place, found⟩ := Disk.find_of_read read
  obtain ⟨null, fits, -, followed⟩ := Disk.followFrom_ok_iff.mp (Disk.find_file_iff.mp found).1
  rw [pathBelow_directoryStart named] at null fits
  rw [steps_pathBelow named, isAbsolute_pathBelow named] at followed
  obtain ⟨middle, reached, rest⟩ := Disk.follow_append_ok_iff.mp followed
  obtain ⟨name, others, rfl⟩ := List.exists_cons_of_ne_nil nonempty
  obtain ⟨directory, next, stepped, -⟩ := Disk.follow_cons_ok_iff.mp rest
  have plain := named.plain name (by simp)
  have located : disk.locate (directoryStart path) = .ok middle := by
    refine Disk.followFrom_ok_iff.mpr ⟨?_, ?_, by simp [directoryStart], ?_⟩
    · simp only [Path.holdsNull, List.contains_eq_mem, List.mem_append, not_or,
        decide_eq_false_iff_not] at null ⊢
      exact null.1
    · rw [Utf8.size_append] at fits
      omega
    · simpa using reached
  rw [Disk.findDirectory, Disk.find_directory_iff.mpr ⟨located, directory⟩]
  exact congrArg Except.ok
    (Disk.locate_destination located (Place.inside_of_step plain.1 plain.2 stepped))

end Below

section Normal

variable {disk : Disk} {path : Text} {below : Location}

/-- The path of a directory is normalized, but for slashes at its end. -/
def isNormalDirectory (path : Text) : Bool :=
  directoryStart (Path.normalize ['/'] (directoryStart path)) = directoryStart path

/-- The path of a directory that is normalized is a root and names. By cases on whether the
directory is the top. -/
theorem exists_normal (normal : isNormalDirectory path = true) :
    ∃ slashes root, (slashes = ['/'] ∨ slashes = ['/', '/']) ∧ Location.Named root ∧
      ∀ names, Location.Named names → names ≠ [] →
        Disk.pathBelow (directoryStart path) names =
          slashes ++ Text.join ['/'] (root ++ names) := by
  have same : directoryStart (Path.normalize ['/'] (directoryStart path)) =
      directoryStart path := by
    simpa [isNormalDirectory] using normal
  have absolute : Path.isAbsolute (directoryStart path) = true :=
    same ▸ isAbsolute_directoryStart (Path.isAbsolute_normalize rfl _)
  have clean : '\\' ∉ directoryStart path :=
    same ▸ not_mem_directoryStart (by decide) (Text.not_mem_replaceChar (by decide) _)
  obtain ⟨named, normalized⟩ := normalize_absolute ['/'] absolute clean
  rw [normalized] at same
  have rooted := Path.root_absolute absolute
  by_cases top : Path.destination (directoryStart path) = []
  · have slash : directoryStart path = ['/'] := by
      rw [← same, top]
      obtain one | two := rooted
      · rw [one]
        rfl
      · rw [two]
        rfl
    refine ⟨['/'], [], .inl rfl, fun _ member => by simp at member, fun names namesNamed _ => ?_⟩
    rw [slash, pathBelow_eq _ namesNamed.isSegment]
    rfl
  · refine ⟨_, _, rooted, named, fun names namesNamed nonempty => ?_⟩
    rw [Text.join_append _ top nonempty, pathBelow_directoryStart namesNamed]
    conv_lhs => rw [← same, directoryStart_join named top]
    simp

/-- The path of a file below a normal directory leads there name by name. -/
theorem isDirect_of_normal (normal : isNormalDirectory path = true) (named : below.Named)
    (nonempty : below ≠ []) :
    Path.isDirect (Disk.pathBelow (directoryStart path) below) = true := by
  obtain ⟨slashes, root, rooted, rootNamed, same⟩ := exists_normal normal
  have whole := rootNamed.append named
  have steps : Disk.steps (Disk.pathBelow (directoryStart path) below) = root ++ below := by
    rw [same below named nonempty, ← Path.ofSegments_eq rooted,
      Disk.steps_ofSegments rooted whole.isSegment]
  refine isDirect_iff.mpr ⟨?_, by simp [steps, nonempty], steps ▸ whole.plain,
    wantsDirectory_pathBelow named nonempty⟩
  rw [same below named nonempty, ← Path.ofSegments_eq rooted]
  exact Path.isAbsolute_ofSegments rooted _

/-- The path of a file below a normal directory is normalized to itself. -/
theorem normalize_of_normal (normal : isNormalDirectory path = true) (named : below.Named)
    (nonempty : below ≠ []) (disk : Disk) :
    disk.normalize (Disk.pathBelow (directoryStart path) below) =
      .ok (Disk.pathBelow (directoryStart path) below) := by
  have absolute := (isDirect_iff.mp (isDirect_of_normal normal named nonempty)).1
  obtain ⟨slashes, root, rooted, rootNamed, same⟩ := exists_normal normal
  rw [Disk.normalize_of_absolute absolute, same below named nonempty]
  exact congrArg Except.ok
    (normalize_slashes rooted (rootNamed.append named) (by simp [nonempty]))

/-- A slash behind the path of a location does not change where it leads. -/
theorem destination_directoryStart {place : Location} (named : place.Named) (disk : Disk) :
    disk.destination (directoryStart place.path) = place := by
  simpa [isAbsolute_directoryStart (isAbsolute_path place), Path.destination]
    using destination_path named

/-- What is below a location has its path, also if a slash is put behind that of the location. -/
theorem pathBelow_directoryStart_path {place : Location} (placeNamed : place.Named)
    (named : below.Named) (nonempty : below ≠ []) :
    Disk.pathBelow (directoryStart place.path) below = Location.path (place ++ below) := by
  rw [← pathBelow_path placeNamed named nonempty, pathBelow_directoryStart named]
  by_cases top : place = []
  · subst top
    rw [pathBelow_eq _ named.isSegment]
    rfl
  · have noSlash : Text.endsWith ['/'] place.path = false := wantsDirectory_path placeNamed top
    rw [directoryStart, trimEnd_path placeNamed top, Disk.pathBelow, Path.append,
      if_neg (by simp [Path.isAbsolute_join named.isSegment]), noSlash]
    simp [Location.path]

/-- The path of a location is normalized. -/
theorem isNormalDirectory_path {place : Location} (named : place.Named) :
    isNormalDirectory place.path = true := by
  have ordinary : Path.isOrdinary (directoryStart place.path) = true := by
    refine isOrdinary_iff.mpr ⟨not_mem_directoryStart (by decide) (not_mem_path named), ?_⟩
    by_cases top : place = []
    · subst top
      rfl
    · obtain ⟨c, rest, other, same⟩ := Path.exists_join named.isSegment top
      rw [directoryStart, trimEnd_path named top, Location.path, same]
      simp [Text.startsWith, List.isPrefixOf, other.symm]
  have top : Location.Named [] := fun _ member => by simp at member
  have joined : Path.append (Location.path []) (directoryStart place.path) =
      directoryStart place.path := by
    rw [Path.append, if_pos (isAbsolute_directoryStart (isAbsolute_path place))]
  have normalized := (normalize_ordinary top ordinary).2
  rw [joined, Path.destination, steps_directoryStart] at normalized
  have same : Path.normalize ['/'] (directoryStart place.path) = place.path :=
    normalized.trans (congrArg Location.path (destination_path named))
  simp [isNormalDirectory, same]

end Normal

namespace Project

variable {world : World} {old new : Text} {moves : List (Text × Text)}

/-- Listing the renames of the files of a directory only asks the disk. -/
theorem asks_directoryMoves (old new : Text) : Asks (directoryMoves old new) :=
  (asks_walk _).bind fun files => (asks_normalizeAll files).bind fun _ => asks_pure _

/-- A directory is renamed by renaming the files that are listed on the disk as it is. Of the files
written, those that are moved are listed by their new paths. -/
theorem renameDirectory_lists {project : Project} {after : World} {written : List Text}
    (run : (project.renameDirectory old new).run world = (.ok written, after)) :
    ∃ moves start each, ((directoryMoves old new).run world).1 = .ok moves ∧
      start.disk = world.disk ∧ (project.renameEach moves).run start = (.ok each, after) ∧
      written = Text.sortedSet
        (each.map fun path => ((OrderedMap.ofList moves).get? path).getD path) := by
  obtain ⟨moves, start, listed, disk, run⟩ := (asks_directoryMoves old new).run_bind_ok rfl run
  obtain ⟨each, finished, renamed, last⟩ := run_bind_ok_iff.mp run
  obtain ⟨same, rfl⟩ := Prod.mk.inj last
  exact ⟨moves, start, each, listed, disk, renamed, (Except.ok.inj same).symm⟩

/-- Renaming a directory renames its files in the order in which they were listed, from a world with
the disk as it was. -/
theorem renameDirectory_ok {project : Project} {after : World} {written : List Text}
    (listed : ((directoryMoves old new).run world).1 = .ok moves)
    (run : (project.renameDirectory old new).run world = (.ok written, after)) :
    ∃ start each, start.disk = world.disk ∧
      (project.renameEach moves).run start = (.ok each, after) := by
  obtain ⟨given, start, each, same, disk, renamed, -⟩ := renameDirectory_lists run
  obtain rfl := Except.ok.inj (listed.symm.trans same)
  exact ⟨start, each, disk, renamed⟩

/-- The files that are moved with a directory are those that a walk lists below it, each once, by
their normalized paths. Where a file goes is settled by the text of its path. -/
theorem directoryMoves_ok (listed : ((directoryMoves old new).run world).1 = .ok moves) :
    ∃ (below : List Location) (normals : List Text), below.Nodup ∧
      (∀ names, names ∈ below ↔ names ≠ [] ∧
        world.disk.findDirectory (directoryStart old) =
          .ok (.ofLocation (world.disk.destination (directoryStart old))) ∧
        (∃ content, world.disk.tree.fileAt (world.disk.locationBelow old names) = some content) ∧
        Utf8.size (Disk.pathBelow (directoryStart old) names.dropLast) ≤ longestPath) ∧
      List.Forall₂ (fun names normal =>
        world.disk.normalize (Disk.pathBelow (directoryStart old) names) = .ok normal)
        below normals ∧
      moves = normals.map fun normal =>
        (normal, directoryStart new ++ normal.drop (directoryStart old).length) := by
  rw [directoryMoves, (asks_walk _).value_bind_ok_iff
    fun files => (asks_normalizeAll files).toReads.bind fun _ => reads_pure _] at listed
  obtain ⟨files, walked, listed⟩ := listed
  rw [(asks_normalizeAll files).value_bind_ok_iff fun _ => reads_pure _] at listed
  obtain ⟨normals, normalized, same⟩ := listed
  obtain rfl := Except.ok.inj same
  obtain rfl := run_walk_ok walked
  have normal := normalizeAll_ok normalized
  change List.Forall₂ _ (world.disk.walk (directoryStart old)) normals at normal
  have nothing (empty : world.disk.walk (directoryStart old) = []) : normals = [] := by
    rw [empty] at normal
    cases normal
    rfl
  cases reached : world.disk.findDirectory (directoryStart old) with
  | error error =>
    rw [nothing (by rw [Disk.walk, reached])]
    exact ⟨[], [], .nil, by simp, .nil, rfl⟩
  | ok place =>
    obtain ⟨root, removed⟩ := place
    cases removed with
    | succ removed =>
      rw [nothing (by rw [Disk.walk, reached])]
      exact ⟨[], [], .nil, by simp [Place.ofLocation], .nil, rfl⟩
    | zero =>
      have here := Disk.locate_destination (locate_of_findDirectory reached) rfl
      obtain rfl : root = world.disk.destination (directoryStart old) :=
        congrArg Place.location here
      rw [Disk.walk, reached, List.forall₂_map_left_iff] at normal
      refine ⟨_, normals, (nodup_filesBelow _).filter _, fun names => ?_, normal,
        rfl⟩
      rw [List.mem_filter, mem_filesBelow, decide_eq_true_eq, and_assoc]
      constructor
      · rintro ⟨nonempty, file, fits⟩
        exact ⟨nonempty, rfl, file, fits⟩
      · rintro ⟨proper, -, file, fits⟩
        exact ⟨proper, file, fits⟩

/-- Each file that is moved with a directory is listed once, by the path of its location. Each
listed path is normalized to that of its location, and different locations have different paths. -/
theorem directoryMoves_sources (named : world.disk.FilesNamed)
    (cwdNamed : world.disk.cwd.location.Named) (ordinary : Path.isOrdinary old = true)
    (clean : '\\' ∉ new) (listed : ((directoryMoves old new).run world).1 = .ok moves) :
    (moves.map Prod.fst).Nodup ∧ ∀ move ∈ moves, ∃ location content,
      move.1 = Location.path location ∧ world.disk.tree.fileAt location = some content ∧
        '\\' ∉ move.2 := by
  obtain ⟨below, normals, distinct, members, normalized, rfl⟩ :=
    directoryMoves_ok listed
  have file (names : Location) (member : names ∈ below) :
      ∃ content, world.disk.tree.fileAt (world.disk.locationBelow old names) = some content := by
    obtain ⟨-, -, file, -⟩ := (members names).mp member
    exact file
  have whole (names : Location) (member : names ∈ below) :
      (world.disk.locationBelow old names).Named := by
    obtain ⟨content, held⟩ := file names member
    exact named _ content held
  obtain rfl : normals = below.map fun names => (world.disk.locationBelow old names).path := by
    refine eq_map_of_forall₂ normalized fun names member normal normalized => ?_
    have namesNamed : Location.Named names := fun name inside =>
      whole names member name (List.mem_append_right _ inside)
    rw [normalize_destination (.inr cwdNamed)
      (isOrdinary_pathBelow ordinary namesNamed ((members names).mp member).1) normalized,
      destination_pathBelow namesNamed]
  constructor
  · rw [List.map_map, List.map_map]
    refine List.Nodup.map_on (fun first firstListed second secondListed same => ?_) distinct
    exact List.append_cancel_left
      (path_inj (whole first firstListed) (whole second secondListed) same)
  · intro move member
    rw [List.map_map] at member
    obtain ⟨names, inside, rfl⟩ := List.mem_map.mp member
    obtain ⟨content, held⟩ := file names inside
    refine ⟨_, content, rfl, held, fun backslash => ?_⟩
    obtain start | behind := List.mem_append.mp backslash
    · exact not_mem_directoryStart (by decide) clean start
    · exact not_mem_path (whole names inside) (List.mem_of_mem_drop behind)

/-- The move of a file below one directory to the same place below another one. -/
def moveBetween (old new : Text) (names : Location) : Text × Text :=
  (Disk.pathBelow (directoryStart old) names, Disk.pathBelow (directoryStart new) names)

/-- If the path of a directory is normalized, the files below it are moved to the same places below
another one. Every file that can be read there is one of them. -/
theorem directoryMoves_between (normal : isNormalDirectory old = true)
    (named : ∀ names content,
      world.disk.tree.fileAt (world.disk.locationBelow old names) = some content →
        Location.Named names)
    (listed : ((directoryMoves old new).run world).1 = .ok moves) :
    ∃ below : List Location, moves = below.map (moveBetween old new) ∧ below.Nodup ∧
      (∀ names ∈ below, names ≠ [] ∧
        ∃ content, world.disk.tree.fileAt (world.disk.locationBelow old names) = some content) ∧
      ∀ names content, Location.Named names → names ≠ [] →
        world.disk.read (Disk.pathBelow (directoryStart old) names) = .ok content →
        names ∈ below := by
  obtain ⟨below, normals, distinct, members, normalized, rfl⟩ :=
    directoryMoves_ok listed
  have files (names : Location) (member : names ∈ below) : names ≠ [] ∧
      ∃ content, world.disk.tree.fileAt (world.disk.locationBelow old names) = some content := by
    obtain ⟨nonempty, -, file, -⟩ := (members names).mp member
    exact ⟨nonempty, file⟩
  have namesNamed (names : Location) (member : names ∈ below) : Location.Named names := by
    obtain ⟨-, content, file⟩ := files names member
    exact named names content file
  obtain rfl : normals = below.map (Disk.pathBelow (directoryStart old)) := by
    refine eq_map_of_forall₂ normalized fun names member normalPath same => ?_
    rw [normalize_of_normal normal (namesNamed names member) (files names member).1] at same
    exact (Except.ok.inj same).symm
  refine ⟨below, ?_, distinct, files, fun names content nameNamed proper read => ?_⟩
  · rw [List.map_map]
    refine List.map_congr_left fun names member => ?_
    rw [Function.comp_apply, moveBetween, pathBelow_directoryStart (namesNamed names member),
      pathBelow_directoryStart (namesNamed names member), List.drop_left]
  · obtain ⟨place, found⟩ := Disk.find_of_read read
    obtain ⟨-, fits, -⟩ := Disk.followFrom_ok_iff.mp (Disk.find_file_iff.mp found).1
    have file := (Disk.find_destination found).2
    rw [destination_pathBelow nameNamed] at file
    exact (members names).mpr ⟨proper, findDirectory_of_read nameNamed proper read, ⟨content, file⟩,
      (size_pathBelow_dropLast _ nameNamed.isSegment).trans fits⟩

end Project

end Relocate
