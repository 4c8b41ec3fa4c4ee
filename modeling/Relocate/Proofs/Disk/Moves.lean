import Relocate.Disk.Move
import Relocate.Proofs.Disk.Changes

/-!
# Moving a file

A file that is moved leaves its location and is at another one afterwards, whether its node was
moved or its content copied. Nothing else changes. Unless a directory is at the new path, the other
location is where that path leads.
-/
namespace Relocate.Disk

/-- The disk after the file at one location has gone to another one, where no directory is. -/
structure Moved (before after : Disk) (source target : Location) (content : Content) : Prop where
  cwd : after.cwd = before.cwd
  file : before.tree.get? source = some (.file content)
  free : before.tree.get? target ≠ some .directory
  nodes : ∀ other, after.tree.get? other =
    if other = target then some (.file content)
    else if other = source then none
    else before.tree.get? other

section Moved

variable {disk after : Disk} {source target : Location} {content : Content}

/-- A moved file leaves every directory in place. -/
theorem Moved.keeps (moved : Moved disk after source target content) :
    disk.KeepsDirectories after := by
  refine ⟨moved.cwd, fun location directory => ?_⟩
  have notTarget : location ≠ target := by
    intro same
    exact moved.free (same ▸ directory)
  have notSource : location ≠ source := by
    intro same
    have file := moved.file
    rw [← same, directory] at file
    simp at file
  rw [moved.nodes, if_neg notTarget, if_neg notSource]
  exact directory

/-- Which files there are after a file has been moved. -/
theorem Moved.fileAt (moved : Moved disk after source target content) (other : Location) :
    after.tree.fileAt other =
      if other = target then some content
      else if other = source then none
      else disk.tree.fileAt other := by
  grind [FileTree.fileAt, moved.nodes other]

/-- Taking a file away takes away nothing else. -/
theorem get?_eraseFile (file : disk.tree.get? source = some (.file content))
    (other : Location) :
    (disk.eraseFile source).tree.get? other =
      if other = source then none else disk.tree.get? other :=
  FileTree.get?_erase_leaf (FileTree.below_of_file file) (FileTree.childless_file file) other

/-- The node of a file takes another location. -/
theorem moved_put (file : disk.tree.get? source = some (.file content))
    (free : disk.tree.get? target ≠ some .directory)
    (parent : disk.tree.get? target.dropLast = some .directory) :
    Moved disk ((disk.eraseFile source).put target (.file content)) source target content := by
  have admits : (disk.eraseFile source).tree.Admits target (.file content) := by
    refine ⟨FileTree.below_of_not_directory free, ?_, ?_⟩
    · grind [get?_eraseFile file target.dropLast]
    · grind [get?_eraseFile file target]
  refine ⟨rfl, file, free, fun other => ?_⟩
  simp [put, admits, get?_eraseFile file]

/-- A file is written to another location and then taken away from its own. -/
theorem moved_erase (file : disk.tree.get? source = some (.file content))
    (free : disk.tree.get? target ≠ some .directory)
    (parent : disk.tree.get? target.dropLast = some .directory) (apart : target ≠ source) :
    Moved disk ((disk.put target (.file content)).eraseFile source) source target content := by
  have admits : disk.tree.Admits target (.file content) :=
    ⟨FileTree.below_of_not_directory free, parent, fun directory => absurd directory free⟩
  have written (other : Location) : (disk.put target (.file content)).tree.get? other =
      if other = target then some (.file content) else disk.tree.get? other :=
    FileTree.get?_put admits other
  have still : (disk.put target (.file content)).tree.get? source = some (.file content) := by
    rw [written, if_neg apart.symm, file]
  refine ⟨rfl, file, free, fun other => ?_⟩
  grind [get?_eraseFile still other]

end Moved

section Moving

variable {disk after : Disk} {old new : Text} {place : Place} {content : Content}

/-- A moved node is where it was to go. Nothing, another file or the file itself may be there; the
last of these leaves the disk as it is. -/
theorem moveNode?_file {source target : Location}
    (file : disk.tree.get? source = some (.file content))
    (parent : disk.tree.get? target.dropLast = some .directory)
    (moved : disk.moveNode? source (.file content) target = some after) :
    Moved disk after source target content := by
  unfold moveNode? at moved
  cases held : disk.tree.get? target with
  | none =>
    simp only [held, Option.some.injEq] at moved
    subst moved
    exact moved_put file (by simp [held]) parent
  | some node =>
    cases node with
    | directory => simp [held] at moved
    | file replaced =>
      simp only [held] at moved
      split at moved
      · rename_i same
        subst same
        obtain rfl := Option.some.inj moved
        refine ⟨rfl, file, by simp [file], fun other => ?_⟩
        split
        · rename_i here
          rw [here, file]
        · rfl
      · obtain rfl := Option.some.inj moved
        exact moved_put file (by simp [held]) parent

/-- The node of a file can only take the location that the new path leads to. The new path ends in a
name, so that it leads to a place of the tree, and the directory of this place is there. -/
theorem relocate?_file (found : disk.find old = .ok (place, .file content))
    (moved : disk.relocate? old new = some after) :
    ∃ location, Moved disk after place.location location content ∧
      disk.locate new = .ok (.ofLocation location) ∧ wantsDirectory new = false := by
  unfold relocate? at moved
  split at moved
  · rename_i named
    rw [found] at moved
    cases located : disk.locate new with
    | error errno => simp [located] at moved
    | ok target =>
      simp only [located] at moved
      split at moved
      · simp at moved
      · rename_i plain
        have inside : target.removed = 0 := by
          have last := (Bool.and_eq_true_iff.mp named).2
          unfold endsInName at last
          split at last
          · simp at last
          · rename_i last ends
            simp only [Bool.and_eq_true, decide_eq_true_eq] at last
            obtain ⟨above, rfl⟩ := exists_above_of_last located ends last.1 last.2
            rfl
        obtain rfl := locate_destination located inside
        have file := (nodeAt_file_iff.mp (find_file_iff.mp found).2.1).2
        have node := FileTree.fileAt_eq_some_iff.mp file
        refine ⟨disk.destination new, ?_, rfl, by simpa using plain⟩
        exact moveNode?_file node (parent_of_locate located) moved
  · simp at moved

/-- A file is copied by writing what it holds, to a path that does not lead to it. -/
theorem copyFileTo_ok (found : disk.find old = .ok (place, .file content))
    (copied : disk.copyFileTo old new = (after, none)) :
    disk.isSame old new = false ∧ disk.write new content = .ok after := by
  unfold copyFileTo at copied
  split at copied
  · simp at copied
  · rename_i apart
    simp only [read, found] at copied
    split at copied
    · rename_i written
      obtain ⟨rfl, -⟩ := Prod.mk.inj copied
      exact ⟨by simpa using apart, written⟩
    · split at copied <;> simp at copied

/-- A file that is copied and then taken away has been moved to where the copy went. -/
theorem moved_of_copy (found : disk.find old = .ok (place, .file content))
    (apart : disk.isSame old new = false) (written : disk.write new content = .ok after) :
    Moved disk (after.eraseFile place.location) place.location (disk.destination new) content := by
  obtain ⟨located, free, plain, rfl⟩ := write_ok written
  obtain ⟨inside, file⟩ := nodeAt_file_iff.mp (find_file_iff.mp found).2.1
  refine moved_erase (FileTree.fileAt_eq_some_iff.mp file) free
    (parent_of_locate located) fun same => ?_
  have other : disk.find new = .ok (place, .file content) := by
    rw [same] at located
    rw [inside] at located ⊢
    exact find_file_iff.mpr ⟨located, nodeAt_file_iff.mpr ⟨rfl, file⟩, plain⟩
  simp [isSame, found, other] at apart

/-- A file that is moved by copying it goes to where the new path leads, unless a directory is
there. The copy is a write, after which the old path still leads to the file. -/
theorem moveFileByCopy_file (found : disk.find old = .ok (place, .file content))
    (moved : disk.moveFileByCopy old new = (after, none)) :
    ∃ location, Moved disk after place.location location content ∧
      (disk.isDirectory new = false →
        disk.locate new = .ok (.ofLocation location) ∧ wantsDirectory new = false) := by
  unfold moveFileByCopy at moved
  split at moved
  · simp at moved
  · rename_i copy copied
    have taken {path : Text} (apart : disk.isSame old path = false)
        (written : disk.write path content = .ok copy) :
        Moved disk after place.location (disk.destination path) content := by
      have kept := (keepsDirectories_write written).locate (find_file_iff.mp found).1
      rw [kept] at moved
      obtain ⟨rfl, -⟩ := Prod.mk.inj moved
      exact moved_of_copy found apart written
    unfold copyFile at copied
    split at copied
    · rename_i directory
      obtain ⟨apart, written⟩ := copyFileTo_ok found copied
      exact ⟨_, taken apart written, fun missing => absurd directory (by simp [missing])⟩
    · obtain ⟨apart, written⟩ := copyFileTo_ok found copied
      obtain ⟨located, -, plain, -⟩ := write_ok written
      exact ⟨_, taken apart written, fun _ => ⟨located, plain⟩⟩

/-- What moving a file to a target has done, whichever of the two ways it took: by its node, or by a
copy if the node cannot be moved. -/
theorem moveTo_file {target : Text} (found : disk.find old = .ok (place, .file content))
    (moved : disk.moveTo old new target = (after, none)) :
    ∃ location, Moved disk after place.location location content ∧
      (disk.isDirectory target = false →
        disk.locate target = .ok (.ofLocation location) ∧ wantsDirectory target = false) := by
  unfold moveTo at moved
  split at moved
  · rename_i result relocated
    obtain ⟨rfl, -⟩ := Prod.mk.inj moved
    obtain ⟨location, here, led⟩ := relocate?_file found relocated
    exact ⟨location, here, fun _ => led⟩
  · rw [if_neg (by simp [isDirectory, found])] at moved
    exact moveFileByCopy_file found moved

/-- A file that is moved into a directory goes to a place in it where nothing is. A file and a
directory are not the same, so that the name of the file is looked for in the directory; if anything
were there, the move would have failed. -/
theorem move_file_into (found : disk.find old = .ok (place, .file content)) {directory : Place}
    (there : disk.find new = .ok (directory, .directory))
    (moved : disk.move old new = (after, none)) :
    ∃ location, Moved disk after place.location location content ∧
      disk.tree.get? location = none ∧
      disk.locate (Path.append new (Path.baseName (Text.trimEnd '/' old))) =
        .ok (.ofLocation location) := by
  have apart : disk.isSame old new = false := by
    have node := (find_file_iff.mp found).2.1
    have other := (find_directory_iff.mp there).2
    simp only [isSame, found, there, decide_eq_false_iff_not]
    rintro rfl
    rw [node] at other
    simp at other
  unfold move at moved
  simp only [there, apart, Bool.false_eq_true, if_false] at moved
  generalize Path.append new (Path.baseName (Text.trimEnd '/' old)) = target at moved ⊢
  split at moved
  · simp at moved
  · rename_i absent
    cases missing : disk.find target with
    | ok result => simp [pathExists, missing, Except.isOk, Except.toBool] at absent
    | error errno =>
      obtain ⟨location, here, led⟩ := moveTo_file found moved
      obtain ⟨located, plain⟩ := led (by simp [isDirectory, missing])
      refine ⟨location, here, ?_, located⟩
      have node : disk.nodeAt (.ofLocation location) = disk.tree.get? location := rfl
      simp only [find, located, node] at missing
      cases held : disk.tree.get? location with
      | none => rfl
      | some node => cases node <;> simp [held, plain] at missing

/-- A file that is moved goes to where the new path leads, unless a directory is there. By cases on
what the new path leads to. -/
theorem move_file (found : disk.find old = .ok (place, .file content))
    (moved : disk.move old new = (after, none)) :
    ∃ location, Moved disk after place.location location content ∧
      ((∃ directory, disk.find new = .ok (directory, .directory)) ∧
          disk.tree.get? location = none ∧
          disk.locate (Path.append new (Path.baseName (Text.trimEnd '/' old))) =
            .ok (.ofLocation location) ∨
        disk.locate new = .ok (.ofLocation location) ∧ wantsDirectory new = false) := by
  by_cases there : ∃ directory, disk.find new = .ok (directory, .directory)
  · obtain ⟨directory, reached⟩ := there
    obtain ⟨location, here, led⟩ := move_file_into found reached moved
    exact ⟨location, here, .inl ⟨⟨directory, reached⟩, led⟩⟩
  · unfold move at moved
    split at moved
    · rename_i directory reached
      exact absurd ⟨directory, reached⟩ there
    · obtain ⟨location, here, led⟩ := moveTo_file found moved
      refine ⟨location, here, .inr (led ?_)⟩
      unfold isDirectory
      split
      · rename_i directory reached
        exact absurd ⟨directory, reached⟩ there
      · rfl

/-- A file that cannot be copied leaves the disk as it was. -/
theorem copyFileTo_failed {error : CopyError}
    (failed : disk.copyFileTo old new = (after, some error)) : after = disk := by
  unfold copyFileTo at failed
  split at failed
  · exact (Prod.mk.inj failed).1.symm
  · split at failed
    · exact (Prod.mk.inj failed).1.symm
    · split at failed
      · simp at failed
      · split at failed <;> exact (Prod.mk.inj failed).1.symm

/-- A copy that fails leaves the disk as it was, because the file is removed only after it has been
written elsewhere. -/
theorem moveFileByCopy_failed {error : MoveError}
    (found : disk.find old = .ok (place, .file content))
    (failed : disk.moveFileByCopy old new = (after, some error)) : after = disk := by
  unfold moveFileByCopy at failed
  split at failed
  · rename_i copy reason copied
    obtain ⟨rfl, -⟩ := Prod.mk.inj failed
    unfold copyFile at copied
    split at copied <;> exact copyFileTo_failed copied
  · -- Once the copy is there, the file is still found and can be taken away.
    rename_i copy copied
    have kept : disk.KeepsDirectories copy := by
      unfold copyFile at copied
      split at copied <;> exact keepsDirectories_write (copyFileTo_ok found copied).2
    rw [kept.locate (find_file_iff.mp found).1] at failed
    simp at failed

/-- Moving a file to a target leaves the disk as it was if it fails. -/
theorem moveTo_failed {target : Text} {error : MoveError}
    (found : disk.find old = .ok (place, .file content))
    (failed : disk.moveTo old new target = (after, some error)) : after = disk := by
  unfold moveTo at failed
  split at failed
  · simp at failed
  · rw [if_neg (by simp [isDirectory, found])] at failed
    exact moveFileByCopy_failed found failed

/-- A file that cannot be moved leaves the disk as it was. -/
theorem move_file_failed {error : MoveError} (found : disk.find old = .ok (place, .file content))
    (failed : disk.move old new = (after, some error)) : after = disk := by
  unfold move at failed
  split at failed
  · split at failed
    · split at failed
      · simp at failed
      · exact (Prod.mk.inj failed).1.symm
    · simp only at failed
      split at failed
      · exact (Prod.mk.inj failed).1.symm
      · exact moveTo_failed found failed
  · exact moveTo_failed found failed

/-- Only what is there is moved. If nothing is found, neither moving the node nor making a copy
succeeds. -/
theorem find_of_moveTo {target : Text} (moved : disk.moveTo old new target = (after, none)) :
    ∃ result, disk.find old = .ok result := by
  cases found : disk.find old with
  | ok result => exact ⟨result, rfl⟩
  | error errno =>
    have noNode : disk.relocate? old target = none := by simp [relocate?, found]
    have notSame (path : Text) : disk.isSame old path = false := by simp [isSame, found]
    have noCopy (path : Text) : ∃ error, disk.copyFileTo old path = (disk, some error) := by
      simp [copyFileTo, notSame, read, found]
    have noMove : ∃ error, disk.copyFile old target = (disk, some error) := by
      unfold copyFile
      split
      · exact noCopy _
      · exact noCopy _
    obtain ⟨error, failed⟩ := noMove
    simp [moveTo, noNode, isDirectory, found, moveFileByCopy, failed] at moved

/-- What has been moved was found at its old path. -/
theorem find_of_move (moved : disk.move old new = (after, none)) :
    ∃ result, disk.find old = .ok result := by
  unfold move at moved
  split at moved
  · split at moved
    · rename_i same
      cases found : disk.find old with
      | ok result => exact ⟨result, rfl⟩
      | error errno => simp [isSame, found] at same
    · simp only at moved
      split at moved
      · simp at moved
      · exact find_of_moveTo moved
  · exact find_of_moveTo moved

/-- A path at which something is found can be followed. -/
theorem locate_of_find {path : Text} {result : Place × Node} (found : disk.find path = .ok result) :
    disk.locate path = .ok result.1 := by
  obtain ⟨place, node⟩ := result
  cases node with
  | directory => exact (find_directory_iff.mp found).1
  | file content => exact (find_file_iff.mp found).1

end Moving

end Relocate.Disk
