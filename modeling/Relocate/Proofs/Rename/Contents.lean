import Relocate.Proofs.Rename.Listing
import Relocate.Proofs.Rename.Steps

/-!
# What is in a renamed directory

The files below a directory are listed first and then moved one after the other, in the order of the
list. If one of them goes to where another is that is yet to be moved, the other is lost, and the
first is moved on in its place: `nested_overwritten`. Otherwise every file that is no source file is
below the new directory afterwards, at the same place and with the same content:
`renameDirectory_keeps`.

The new directory may be given by a relative path. The current directory is not removed then,
because a moved file is below it, and so the path leads to the same place from the first move to the
last.
-/
namespace Relocate.Project

open Action

/-- The disk while the files of a directory are moved to another one, of which some are done. -/
structure Emptied (extensions : List Text) (old new : Text) (start current : Disk)
    (below done : List Location) : Prop where
  cwd : start.cwd.Withdrawn current.cwd
  stays : done ≠ [] → (current.origin (directoryStart new)).removed = 0
  directories : ∀ location, current.tree.get? location = some .directory →
    start.tree.get? location = some .directory ∨
      ∃ names ∈ done, location <+: start.locationBelow new names.dropLast
  pending : ∀ names ∈ below, names ∉ done →
    ∃ content, current.tree.fileAt (start.locationBelow old names) = some content ∧
      (isSource extensions (Disk.pathBelow (directoryStart old) names) = false →
        start.tree.fileAt (start.locationBelow old names) = some content)
  arrived : ∀ names ∈ done,
    isSource extensions (Disk.pathBelow (directoryStart old) names) = false →
    current.tree.fileAt (start.locationBelow new names) =
      start.tree.fileAt (start.locationBelow old names)
  located : ∀ names ∈ done, ∃ (other : Disk) (place : Place),
    other.locate (Disk.pathBelow (directoryStart new) names) = .ok place

/-- The files below one directory can be moved to below another one in the order given: what is at
the new place of one of them is one of them too, and has been moved before. -/
structure Orderly (disk : Disk) (old new : Text) (below : List Location) : Prop where
  normal : isNormalDirectory old = true
  forward : ['.', '.'] ∉ Disk.steps new
  distinct : below.Nodup
  files : ∀ names ∈ below, names ≠ [] ∧ Location.Named names ∧
    ∃ content, disk.tree.fileAt (disk.locationBelow old names) = some content
  free : ∀ names ∈ below,
    disk.pathExists (Disk.pathBelow (directoryStart new) names) = false ∨
      ∃ other ∈ below, disk.locationBelow new names = disk.locationBelow old other
  apart : below.Pairwise fun earlier later =>
    disk.locationBelow new earlier ≠ disk.locationBelow old later

section Emptying

variable {project : Project} {start current after : World} {old new : Text}
  {below done later : List Location} {names : Location} {written : List Text}

/-- The files that are written with a renamed one are source files, whatever path leads to them. -/
theorem isSource_of_dependent {dependents : List Text} {path oldPath text : Text}
    (plain : ∀ extension ∈ project.extensions, '/' ∉ extension)
    (asked : ((project.dependentFiles oldPath).run current).1 = .ok dependents)
    (member : path ∈ dependents) (read : current.disk.read path = .ok (.text text)) :
    isSource project.extensions (Path.destination path).path = true := by
  obtain ⟨-, rfl⟩ | ⟨module, graph, -, built, rfl⟩ := dependentFiles_ok asked
  · simp at member
  · obtain ⟨roots, listed, -⟩ := graph_ok_iff.mp built
    obtain ⟨met, -⟩ := (mem_dependentsOf_graph listed built).mp member
    obtain ⟨place, found⟩ := Disk.find_of_read read
    rw [isSource_of_find plain (isAbsolute_of_mem_scan met) found]
    exact (root_of_mem_scan met).1

/-- A file that is no source file is not written with a renamed one. -/
theorem Carried.kept {oldPath newPath : Text} {rename : Option (Text × Text)} {content : Content}
    {dependents : List Text} {source target location : Location}
    (carried : Carried current.disk after.disk source oldPath newPath rename content dependents
      target)
    (plain : ∀ extension ∈ project.extensions, '/' ∉ extension)
    (asked : ((project.dependentFiles oldPath).run current).1 = .ok dependents)
    (noSource : isSource project.extensions location.path = false) :
    after.disk.tree.fileAt location =
      if location = target then some (renamedContent rename content)
      else if location = source then none
      else current.disk.tree.fileAt location := by
  obtain ⟨path, dependent, rfl, _, _, earlier, _, -, read, -⟩ | ⟨-, kept⟩ := carried.files location
  · rw [isSource_of_dependent plain asked dependent read] at noSource
    simp at noSource
  · exact kept

/-- A file is moved once. -/
theorem Orderly.fresh (orderly : Orderly start.disk old new below)
    (split : below = done ++ names :: later) : names ∉ done := by
  have distinct := orderly.distinct
  rw [split, List.nodup_append] at distinct
  exact fun inside => distinct.2.2 names inside names (by simp) rfl

/-- No file has gone to where one is that is moved later. -/
theorem Orderly.apart_done (orderly : Orderly start.disk old new below)
    (split : below = done ++ names :: later) : ∀ earlier ∈ done,
      start.disk.locationBelow new earlier ≠ start.disk.locationBelow old names := by
  have apart := orderly.apart
  rw [split, List.pairwise_append] at apart
  exact fun earlier inside => apart.2.2 earlier inside names (by simp)

/-- A file does not go to where one is that is moved later. -/
theorem Orderly.apart_later (orderly : Orderly start.disk old new below)
    (split : below = done ++ names :: later) : ∀ other ∈ below, other ∉ done ++ [names] →
      start.disk.locationBelow new names ≠ start.disk.locationBelow old other := by
  have apart := orderly.apart
  rw [split, List.pairwise_append, List.pairwise_cons] at apart
  intro other listed remaining
  rw [split] at listed
  obtain earlier | here := List.mem_append.mp listed
  · exact absurd (List.mem_append_left _ earlier) remaining
  · obtain rfl | last := List.mem_cons.mp here
    · exact absurd (by simp) remaining
    · exact apart.2.1.1 other last

/-- The new path of a file never goes back. -/
theorem Orderly.isForward (orderly : Orderly start.disk old new below) (member : names ∈ below) :
    Path.isForward (Disk.pathBelow (directoryStart new) names) = true := by
  obtain ⟨nonempty, named, -⟩ := orderly.files names member
  exact isForward_pathBelow named nonempty orderly.forward

/-- The old path of a file leads to where the file is. -/
theorem Orderly.destination_old (orderly : Orderly start.disk old new below)
    (member : names ∈ below) :
    Path.isDirect (Disk.pathBelow (directoryStart old) names) = true ∧
      Path.destination (Disk.pathBelow (directoryStart old) names) =
        start.disk.locationBelow old names := by
  obtain ⟨nonempty, named, -⟩ := orderly.files names member
  have direct := isDirect_of_normal orderly.normal named nonempty
  refine ⟨direct, ?_⟩
  rw [← Disk.destination_absolute start.disk (isDirect_iff.mp direct).1,
    destination_pathBelow named]

/-- If the new path of a file can be followed in the end, it has always started from the same place
of the tree. -/
theorem Orderly.origin (orderly : Orderly start.disk old new below) (member : names ∈ below)
    {other : Disk} {place : Place} (first : start.disk.cwd.Withdrawn current.disk.cwd)
    (second : current.disk.cwd.Withdrawn other.cwd)
    (located : other.locate (Disk.pathBelow (directoryStart new) names) = .ok place) :
    current.disk.origin (directoryStart new) = start.disk.origin (directoryStart new) ∧
      (current.disk.origin (directoryStart new)).removed = 0 := by
  have inside := inside_of_forward (orderly.isForward member) located
  rw [origin_pathBelow (orderly.files names member).2.1] at inside
  rw [Disk.origin_of_withdrawn second inside] at inside
  exact ⟨Disk.origin_of_withdrawn first inside, inside⟩

/-- After a file has gone to its new place, new paths start from where they started before. If new
paths are relative, the current directory lies above the new file, and what is above a file has not
been removed. -/
theorem Orderly.origin_after (orderly : Orderly start.disk old new below) (member : names ∈ below)
    (origin : current.disk.origin (directoryStart new) = start.disk.origin (directoryStart new))
    (inside : (current.disk.origin (directoryStart new)).removed = 0) {path : Text}
    (confined : Confined current.disk after.disk path) {content : Content}
    (file : after.disk.tree.fileAt (start.disk.locationBelow new names) = some content) :
    (after.disk.origin (directoryStart new)).removed = 0 := by
  have above := FileTree.fileAt_eq_some_iff.mp file
  rw [Disk.locationBelow, Disk.destination_forward _ (steps_directoryStart new ▸ orderly.forward),
    List.append_assoc, ← origin] at above
  have directory := FileTree.above above (by simp [(orderly.files names member).1])
  unfold Disk.origin at inside directory ⊢
  split
  · rfl
  · rename_i relative
    rw [if_neg relative] at inside directory
    rw [confined.stays directory]
    exact inside

/-- At the new place of a file there was no directory at first: there was nothing, or a file that is
to be moved as well. -/
theorem Orderly.not_directory {place : Place} {other : Disk}
    (orderly : Orderly start.disk old new below) (member : names ∈ below)
    (withdrawn : start.disk.cwd.Withdrawn other.cwd)
    (located : other.locate (Disk.pathBelow (directoryStart new) names) = .ok place) :
    start.disk.tree.get? (start.disk.locationBelow new names) ≠ some .directory := by
  intro directory
  obtain absent | ⟨other, listed, same⟩ := orderly.free names member
  · rw [← destination_pathBelow (orderly.files names member).2.1, Disk.free_of_withdrawn
      (orderly.isForward member) withdrawn located absent] at directory
    simp at directory
  · obtain ⟨-, -, held, there⟩ := orderly.files other listed
    rw [← same, FileTree.fileAt_eq_some_iff, directory] at there
    simp at there

/-- A file goes to its new place. No directory was there at first, and the directories that have
come since lie above other new places. -/
theorem Emptied.target_eq {target : Location}
    (emptied : Emptied project.extensions old new start.disk current.disk below done)
    (orderly : Orderly start.disk old new below) (sub : done ⊆ below) (member : names ∈ below)
    (landed : Landed current.disk (Disk.pathBelow (directoryStart old) names)
      (Disk.pathBelow (directoryStart new) names) target) :
    target = start.disk.locationBelow new names ∧ ∃ (other : Disk) (place : Place),
      current.disk.cwd.Withdrawn other.cwd ∧
        other.locate (Disk.pathBelow (directoryStart new) names) = .ok place := by
  refine landed.target_eq (orderly.isForward member) fun other location withdrawn located => ?_
  have same := Disk.destination_of_withdrawn (emptied.cwd.trans withdrawn) located
  rw [destination_pathBelow (orderly.files names member).2.1] at same
  have files : ∀ other ∈ names :: done, other ≠ [] ∧
      ∃ content, start.disk.tree.fileAt (start.disk.locationBelow old other) = some content := by
    intro other inside
    obtain ⟨proper, -, file⟩ :=
      orderly.files other (List.cons_subset.mpr ⟨member, sub⟩ inside)
    exact ⟨proper, file⟩
  exact ⟨same.symm, not_directory_of_files emptied.directories files
    (orderly.not_directory member (emptied.cwd.trans withdrawn) located)⟩

/-- What one more rename leaves of the invariant. The renamed file was still pending and goes to its
new place. Dependents that are written with it are source files, of which the invariant says at most
that they are there. -/
theorem Emptied.step
    (emptied : Emptied project.extensions old new start.disk current.disk below done)
    (orderly : Orderly start.disk old new below)
    (plain : ∀ extension ∈ project.extensions, '/' ∉ extension)
    (split : below = done ++ names :: later)
    (run : (project.renameFile (moveBetween old new names).1 (moveBetween old new names).2).run
      current = (.ok written, after)) :
    Emptied project.extensions old new start.disk after.disk below (done ++ [names]) := by
  have member : names ∈ below := by simp [split]
  have sub : done ⊆ below := by simp [split]
  have fresh := orderly.fresh split
  obtain ⟨nonempty, named, -⟩ := orderly.files names member
  obtain ⟨direct, leads⟩ := orderly.destination_old member
  obtain ⟨content, file, same⟩ := emptied.pending names member fresh
  have found := find_of_renameFile direct (leads ▸ file) run
  obtain ⟨rename, dependents, target, renamed, asked, carried⟩ :=
    carried_renameFile found run
  obtain ⟨rfl, other, place, withdrawn, located⟩ :=
    emptied.target_eq orderly sub member carried.landed
  have source (other : Location) (listed : other ∈ below) (path : Text) :
      isSource project.extensions (start.disk.locationBelow path other).path =
        isSource project.extensions (Disk.pathBelow (directoryStart old) other) :=
    isSource_locationBelow plain (orderly.files other listed).2.1 (orderly.files other listed).1 old
  have kept {location : Location} (noSource : isSource project.extensions location.path = false) :=
    carried.kept plain asked noSource
  obtain ⟨origin, inside⟩ := orderly.origin member emptied.cwd withdrawn located
  refine ⟨emptied.cwd.trans carried.confined.cwd, fun _ => ?_, ?_, ?_, ?_, ?_⟩
  · obtain ⟨held, arrived⟩ := carried.arrived
    exact orderly.origin_after member origin inside carried.confined arrived
  · intro location directory
    obtain already | above := Disk.directory_of_makeParents (orderly.isForward member)
      (carried.confined.directories location directory)
    · obtain first | ⟨earlier, inside, above⟩ := emptied.directories location already
      · exact .inl first
      · exact .inr ⟨earlier, List.mem_append_left _ inside, above⟩
    · rw [destination_pathBelow named, locationBelow_of_origin origin, Disk.locationBelow,
        List.dropLast_append_of_ne_nil nonempty] at above
      exact .inr ⟨names, by simp, above⟩
  · intro other listed remaining
    have pending : other ∉ done := fun inside => remaining (List.mem_append_left _ inside)
    have notOld : start.disk.locationBelow old other ≠ start.disk.locationBelow old names :=
      fun equal => remaining (by simp [List.append_cancel_left equal])
    obtain ⟨held, there, equal⟩ := emptied.pending other listed pending
    obtain ⟨path, dependent, led, _, _, _, later, -, read, -, written⟩ | ⟨-, same⟩ :=
      carried.files (start.disk.locationBelow old other)
    · refine ⟨_, written, fun noSource => ?_⟩
      have isSource := isSource_of_dependent plain asked dependent read
      rw [led, source other listed, noSource] at isSource
      simp at isSource
    · refine ⟨held, ?_, equal⟩
      rw [same, if_neg (orderly.apart_later split other listed remaining).symm, leads]
      exact (if_neg notOld).trans there
  · intro other finished noSource
    obtain earlier | last := List.mem_append.mp finished
    · have apart : start.disk.locationBelow new other ≠ start.disk.locationBelow new names :=
        fun equal => fresh (List.append_cancel_left equal ▸ earlier)
      rw [kept ((source other (sub earlier) new).trans noSource), if_neg apart, leads]
      exact (if_neg (orderly.apart_done split other earlier)).trans
        (emptied.arrived other earlier noSource)
    · obtain rfl := List.mem_singleton.mp last
      have missing : rename = none := by
        obtain ⟨declared, -⟩ := moduleRename_ok_iff.mp renamed
        cases rename with
        | none => rfl
        | some pair =>
          have isSource := (declaredModule_some declared).1
          rw [noSource] at isSource
          simp at isSource
      rw [kept ((source other member new).trans noSource), if_pos rfl, missing, same noSource]
      rfl
  · intro other finished
    obtain earlier | last := List.mem_append.mp finished
    · exact emptied.located other earlier
    · obtain rfl := List.mem_singleton.mp last
      exact ⟨_, _, located⟩

/-- What all renames leave of the invariant. -/
theorem emptied_renameEach (orderly : Orderly start.disk old new below)
    (plain : ∀ extension ∈ project.extensions, '/' ∉ extension)
    (run : (project.renameEach (below.map (moveBetween old new))).run start =
      (.ok written, after)) :
    Emptied project.extensions old new start.disk after.disk below below := by
  refine renameEach_preserves (moveBetween old new)
    (fun done disk => Emptied project.extensions old new start.disk disk below done) ?_ ?_ run
  · refine ⟨.refl _, absurd rfl, fun _ directory => .inl directory,
      fun names member _ => ?_, by simp, by simp⟩
    obtain ⟨-, -, content, file⟩ := orderly.files names member
    exact ⟨content, file, fun _ => file⟩
  · intro done names later current next written split emptied run
    exact emptied.step orderly plain split run

end Emptying

/-- After a directory has been renamed, every file below it that is no source file is at the same
place below the new directory, with the same content, if no file goes to where one is that is moved
after it. The path of the directory has to be normalized, and that of the new one must not go back.
The invariant of the moves is `Emptied`: the files that are still to be moved are where they were,
the others at their new places. Each move keeps it because its new place is none of the former. -/
theorem renameDirectory_keeps {project : Project} {world after : World} {old new : Text}
    {moves : List (Text × Text)} {written : List Text}
    (plain : ∀ extension ∈ project.extensions, '/' ∉ extension)
    (normal : isNormalDirectory old = true) (forward : ['.', '.'] ∉ Disk.steps new)
    (named : ∀ names content,
      world.disk.tree.fileAt (world.disk.locationBelow old names) = some content →
        Location.Named names)
    (listed : ((directoryMoves old new).run world).1 = .ok moves)
    (free : ∀ move ∈ moves, world.disk.pathExists move.2 = false ∨
      ∃ other ∈ moves, world.disk.destination move.2 = world.disk.destination other.1)
    (apart : moves.Pairwise fun earlier later =>
      world.disk.destination earlier.2 ≠ world.disk.destination later.1)
    (run : (project.renameDirectory old new).run world = (.ok written, after)) :
    ∀ names content, Location.Named names → names ≠ [] →
      world.disk.read (Disk.pathBelow (directoryStart old) names) = .ok content →
      isSource project.extensions (Disk.pathBelow (directoryStart old) names) = false →
      after.disk.read (Disk.pathBelow (directoryStart new) names) = .ok content := by
  obtain ⟨below, rfl, distinct, files, complete⟩ :=
    directoryMoves_between normal named listed
  have namesNamed (names : Location) (member : names ∈ below) : Location.Named names := by
    obtain ⟨-, content, file⟩ := files names member
    exact named names content file
  have leads (names : Location) (member : names ∈ below) (path : Text) :
      world.disk.destination (Disk.pathBelow (directoryStart path) names) =
        world.disk.locationBelow path names := destination_pathBelow (namesNamed names member)
  have orderly : Orderly world.disk old new below := by
    refine ⟨normal, forward, distinct, fun names member => ?_, fun names member => ?_, ?_⟩
    · obtain ⟨nonempty, file⟩ := files names member
      exact ⟨nonempty, namesNamed names member, file⟩
    · obtain absent | ⟨move, taken, same⟩ := free _ (List.mem_map_of_mem member)
      · exact .inl absent
      · obtain ⟨other, inside, rfl⟩ := List.mem_map.mp taken
        rw [moveBetween, moveBetween, leads names member, leads other inside] at same
        exact .inr ⟨other, inside, same⟩
    · refine (List.pairwise_map.mp apart).imp_of_mem fun {earlier later} first second differs => ?_
      rwa [moveBetween, moveBetween, leads earlier first, leads later second] at differs
  obtain ⟨start, each, disk, renamed⟩ := renameDirectory_ok listed run
  rw [← disk] at orderly complete ⊢
  have emptied := emptied_renameEach orderly plain renamed
  intro names content nameNamed proper read noSource
  have member := complete names content nameNamed proper read
  obtain ⟨place, found⟩ := Disk.find_of_read read
  have file := (Disk.find_destination found).2
  rw [destination_pathBelow nameNamed, ← emptied.arrived names member noSource] at file
  obtain ⟨other, spot, located⟩ := emptied.located names member
  have inside := emptied.stays (List.ne_nil_of_mem member)
  rw [← locationBelow_of_origin (Disk.origin_of_withdrawn emptied.cwd inside),
    ← destination_pathBelow nameNamed, FileTree.fileAt_eq_some_iff] at file
  rw [← origin_pathBelow nameNamed] at inside
  exact Disk.read_of_find (find_forward (orderly.isForward member)
    inside located file)

/-- A disk with a file in a directory and one of the same name in a directory in it. -/
def nested : World where
  disk :=
    ⟨⟨[(["r".toList], .directory),
      (["r".toList, "a".toList], .directory),
      (["r".toList, "a".toList, "b".toList], .directory),
      (["r".toList, "a".toList, "b".toList, "x.txt".toList], .file (.text "2".toList)),
      (["r".toList, "a".toList, "x.txt".toList], .file (.text "1".toList))], by decide⟩,
      .ofLocation []⟩
  locked := []
  events := []

/-- The rename of the outer directory to the inner one. -/
def nestedRenamed : Except Failure (List Text) × World :=
  (oneRoot.renameDirectory "/r/a".toList "/r/a/b".toList).run nested

/-- The outer file goes to where the inner one is and then on in its place. What the inner one held
is lost. -/
theorem nested_overwritten :
    ((directoryMoves "/r/a".toList "/r/a/b".toList).run nested).1 =
        .ok [("/r/a/x.txt".toList, "/r/a/b/x.txt".toList),
          ("/r/a/b/x.txt".toList, "/r/a/b/b/x.txt".toList)] ∧
      nested.disk.pathExists "/r/a/b/b/x.txt".toList = false ∧
      nestedRenamed.1 = .ok ["/r/a/b/b/x.txt".toList] ∧
      nestedRenamed.2.disk.pathExists "/r/a/b/x.txt".toList = false ∧
      nestedRenamed.2.disk.read "/r/a/b/b/x.txt".toList = .ok (.text "1".toList) := by
  decide +kernel

/-- A disk with a file in a directory, one of the same name in a directory of the same name in it,
and a source file. The current directory is the one that they are in. -/
def echoed : World where
  disk :=
    ⟨⟨[(["r".toList], .directory),
      (["r".toList, "a".toList], .directory),
      (["r".toList, "a".toList, "a".toList], .directory),
      (["r".toList, "a".toList, "a".toList, "y.txt".toList], .file (.text "a.m".toList)),
      (["r".toList, "a".toList, "m.clj".toList], .file (.text "(ns a.m)".toList)),
      (["r".toList, "a".toList, "y.txt".toList], .file (.text "1".toList)),
      (["r".toList, "u.clj".toList], .file (.text "(ns u (:require a.m))".toList))], by decide⟩,
      .ofLocation ["r".toList]⟩
  locked := []
  events := []

/-- The rename of the outer directory to the current one. -/
def echoedRenamed : Except Failure (List Text) × World :=
  (oneRoot.renameDirectory "/r/a/".toList ".".toList).run echoed

/-- Both files are found below the new directory with what they held: the file that moves first does
not go to where the other one is. -/
theorem renameDirectory_keeps_echoed :
    echoedRenamed.2.disk.read "./y.txt".toList = .ok (.text "1".toList) ∧
      echoedRenamed.2.disk.read "./a/y.txt".toList = .ok (.text "a.m".toList) := by
  have written : echoedRenamed.1 = .ok ["./a/y.txt".toList, "./m.clj".toList, "./y.txt".toList,
      "/r/u.clj".toList] := by decide +kernel
  have run : echoedRenamed = (.ok ["./a/y.txt".toList, "./m.clj".toList, "./y.txt".toList,
      "/r/u.clj".toList], echoedRenamed.2) := by
    rw [← written]
  have named : ∀ names content,
      echoed.disk.tree.fileAt (echoed.disk.locationBelow "/r/a/".toList names) = some content →
        Location.Named names := by
    intro names content file
    have entries : ∀ entry ∈ echoed.disk.tree.entries, Location.Named entry.1 := by decide
    have entry := FileTree.mem_entries_of_file (FileTree.fileAt_eq_some_iff.mp file)
    exact fun name member => entries _ entry name (List.mem_append_right _ member)
  have listed : ((directoryMoves "/r/a/".toList ".".toList).run echoed).1 =
      .ok [("/r/a/m.clj".toList, "./m.clj".toList), ("/r/a/y.txt".toList, "./y.txt".toList),
        ("/r/a/a/y.txt".toList, "./a/y.txt".toList)] := by decide +kernel
  have plain : ∀ extension ∈ oneRoot.extensions, '/' ∉ extension := by decide +kernel
  have normal : isNormalDirectory "/r/a/".toList = true := by decide +kernel
  have forward : ['.', '.'] ∉ Disk.steps ".".toList := by decide
  have keeps := renameDirectory_keeps plain normal forward named listed (by decide +kernel)
    (by decide +kernel) run
  exact ⟨keeps ["y.txt".toList] (.text "1".toList) (by decide) (by decide) (by decide +kernel)
      (by decide +kernel),
    keeps ["a".toList, "y.txt".toList] (.text "a.m".toList) (by decide) (by decide)
      (by decide +kernel) (by decide +kernel)⟩

end Relocate.Project
