import Relocate.Proofs.Disk.Locations
import Relocate.Proofs.Scan

/-!
# The source files below roots, by location

Below roots that are paths of locations, a scan comes upon each source file by the path of its
location: `mem_scan_iff`. So what a scan comes upon on one disk and on another can be compared file
by file.
-/
namespace Relocate

section Walk

variable {disk : Disk} {root below : Location} {path : Text}

/-- The location of an entry that is listed below a directory. -/
theorem listed_iff {directory : Location} {entry : Location × Node} :
    (match entry.2 with
      | .directory => none
      | .file _ =>
        if directory.isPrefixOf entry.1 && directory ≠ entry.1 then
          some (entry.1.drop directory.length)
        else none) = some below ↔
      below ≠ [] ∧ ∃ content, entry = (directory ++ below, .file content) := by
  obtain ⟨location, node⟩ := entry
  cases node with
  | directory => simp
  | file content =>
    simp only [Bool.and_eq_true, decide_eq_true_eq]
    constructor
    · intro here
      split at here
      · rename_i inside
        obtain ⟨rest, rfl⟩ := List.isPrefixOf_iff_prefix.mp inside.1
        rw [List.drop_left] at here
        obtain rfl := Option.some.inj here
        refine ⟨?_, content, rfl⟩
        rintro rfl
        simp at inside
      · simp at here
    · rintro ⟨proper, other, same⟩
      obtain ⟨rfl, -⟩ := Prod.mk.inj same
      simp [proper]

/-- The files below a location. -/
theorem mem_filesBelow {tree : FileTree} {location : Location} :
    below ∈ tree.filesBelow location ↔
      below ≠ [] ∧ ∃ content, tree.fileAt (location ++ below) = some content := by
  rw [FileTree.filesBelow, (sortBy_perm _ _).mem_iff, List.mem_filterMap]
  constructor
  · rintro ⟨entry, member, here⟩
    obtain ⟨proper, content, rfl⟩ := listed_iff.mp here
    exact ⟨proper, content, FileTree.fileAt_eq_some_iff.mpr (FileTree.get?_of_mem member)⟩
  · rintro ⟨proper, content, file⟩
    have found := FileTree.fileAt_eq_some_iff.mp file
    exact ⟨_, FileTree.mem_entries_of_file found, listed_iff.mpr ⟨proper, content, rfl⟩⟩

/-- No file is listed twice. -/
theorem nodup_filesBelow {tree : FileTree} (location : Location) :
    (tree.filesBelow location).Nodup := by
  have distinct := List.pairwise_map.mp tree.wellFormed.distinct
  refine (sortBy_perm _ _).nodup_iff.mpr (distinct.filterMap _ ?_)
  rintro first second apart below here _ there rfl
  obtain ⟨-, content, rfl⟩ := listed_iff.mp here
  obtain ⟨-, other, rfl⟩ := listed_iff.mp there
  exact apart rfl

/-- A root is looked for by the path of its location. Such a path is tidy, and a place that it leads
to is its location. -/
theorem look_path (named : root.Named) :
    disk.look (Path.tidy root.path) = .ok (some .directory) ↔
      disk.find root.path = .ok (.ofLocation root, .directory) := by
  rw [tidy_path named, Disk.look]
  constructor
  · intro looked
    split at looked
    · rename_i place node found
      obtain rfl : node = .directory := by simpa using looked
      obtain ⟨located, -⟩ := Disk.find_directory_iff.mp found
      simp [found, Disk.locate_absolute rfl located, named]
    · simp at looked
    · simp at looked
  · intro found
    rw [found]

/-- A walk lists the files below a directory by the paths of their locations. -/
theorem mem_walk (found : disk.find root.path = .ok (.ofLocation root, .directory)) :
    path ∈ disk.walk root.path ↔ ∃ below, below ≠ [] ∧
      (∃ content, disk.tree.fileAt (root ++ below) = some content) ∧
      Utf8.size (Disk.pathBelow root.path below.dropLast) ≤ longestPath ∧
      path = Disk.pathBelow root.path below := by
  have reached : disk.findDirectory root.path = .ok (.ofLocation root) := by
    rw [Disk.findDirectory, found]
  rw [Disk.walk, reached]
  simp only [Place.ofLocation, List.mem_map, List.mem_filter, mem_filesBelow,
    decide_eq_true_eq]
  constructor
  · rintro ⟨below, ⟨⟨proper, file⟩, fits⟩, rfl⟩
    exact ⟨below, proper, file, fits, rfl⟩
  · rintro ⟨below, proper, file, fits, rfl⟩
    exact ⟨below, ⟨⟨proper, file⟩, fits⟩, rfl⟩

/-- What is read at the path of a location is the file there, if the path could be followed on any
disk. -/
theorem read_path {other : Disk} {location : Location} {place : Place} {content : Content}
    (named : location.Named) (located : other.locate location.path = .ok place) :
    disk.read location.path = .ok content ↔ disk.tree.fileAt location = some content := by
  constructor
  · intro held
    obtain ⟨spot, found⟩ := Disk.find_of_read held
    exact fileAt_of_find named found
  · intro file
    exact Disk.read_of_find (find_path named located (FileTree.fileAt_eq_some_iff.mp file))

end Walk

/-- All files of the disk are at locations of names. -/
def Disk.FilesNamed (disk : Disk) : Prop :=
  ∀ location content, disk.tree.fileAt location = some content → Location.Named location

/-- At the location is a source file below one of the roots. -/
structure Disk.SourceAt (disk : Disk) (extensions : List Text) (roots : List Location)
    (location : Location) : Prop where
  source : isSource extensions location.path = true
  file : ∃ content, disk.tree.fileAt location = some content
  below : ∃ root ∈ roots, ∃ names, names ≠ [] ∧ location = root ++ names ∧
    disk.find root.path = .ok (.ofLocation root, .directory) ∧
    Utf8.size (Disk.pathBelow root.path names.dropLast) ≤ longestPath

/-- A source file on one disk is one on any other that has a file at its location: the root is a
directory there too, because the file is below it. -/
theorem Disk.SourceAt.of_file {disk other : Disk} {extensions : List Text} {roots : List Location}
    {location : Location} {content : Content} (source : disk.SourceAt extensions roots location)
    (rootsNamed : ∀ root ∈ roots, Location.Named root)
    (file : other.tree.fileAt location = some content) :
    other.SourceAt extensions roots location := by
  obtain ⟨root, member, names, below, rfl, found, fits⟩ := source.below
  refine ⟨source.source, ⟨content, file⟩, root, member, names, below, rfl, ?_, fits⟩
  have directory := FileTree.above (FileTree.fileAt_eq_some_iff.mp file) below
  exact find_path (rootsNamed root member)
    (Disk.find_directory_iff.mp found).1 directory

section Scan

variable {disk : Disk} {extensions : List Text} {roots : List Location} {path : Text}

/-- A file below a root has the path of its location. -/
theorem path_of_below (named : disk.FilesNamed) {root names : Location} (rootNamed : root.Named)
    (below : names ≠ []) {content : Content}
    (file : disk.tree.fileAt (root ++ names) = some content) :
    Path.normalize ['/'] (Disk.pathBelow root.path names) = Location.path (root ++ names) := by
  have whole := named _ _ file
  have namesNamed : Location.Named names := fun name member =>
    whole name (List.mem_append_right _ member)
  simp [rootNamed, namesNamed, below, whole]

/-- A scan that does not stop comes upon exactly the source files below the roots. The paths that a
walk lists are those of the locations, and normalizing leaves them as they are. -/
theorem mem_scan_iff (named : disk.FilesNamed) (rootsNamed : ∀ root ∈ roots, Location.Named root)
    (noStop : ∀ error, .stop error ∉ scan disk extensions [] (roots.map Location.path)) :
    .file path ∈ scan disk extensions [] (roots.map Location.path) ↔
      ∃ location, path = Location.path location ∧ disk.SourceAt extensions roots location := by
  constructor
  · intro met
    obtain ⟨source, other, listed, looked, walked⟩ := root_of_mem_scan met
    obtain ⟨root, member, rfl⟩ := List.mem_map.mp listed
    have rootNamed := rootsNamed root member
    have found := (look_path rootNamed).mp looked
    obtain ⟨below, inside, rfl⟩ := List.mem_map.mp walked
    obtain ⟨names, nonempty, ⟨content, file⟩, fits, rfl⟩ := (mem_walk found).mp inside
    have same := path_of_below named rootNamed nonempty file
    rw [same] at source ⊢
    exact ⟨root ++ names, rfl, source, ⟨content, file⟩, root, member, names, nonempty, rfl, found,
      fits⟩
  · rintro ⟨location, rfl, source, ⟨content, file⟩, root, member, names, proper, rfl, found, fits⟩
    have rootNamed := rootsNamed root member
    have walked := (mem_walk found).mpr ⟨names, proper, ⟨content, file⟩, fits, rfl⟩
    have inside := List.mem_map_of_mem (f := Path.normalize ['/']) walked
    rw [path_of_below named rootNamed proper file] at inside
    have met := mem_scan_of_root (List.mem_map_of_mem member) noStop
      ((look_path rootNamed).mpr found) inside source
    exact met.resolve_left (by simp)

end Scan

end Relocate
