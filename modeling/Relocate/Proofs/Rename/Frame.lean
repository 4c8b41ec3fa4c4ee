import Relocate.Proofs.Outcomes
import Relocate.Proofs.Rename.Consistency
import Relocate.Proofs.Rename.Listing

/-!
# What the rename of a file leaves alone

A rename may stop at any of its steps: directories are made one by one, the file is moved, emptied
directories are removed one by one, and texts are written one by one. Whatever the last step was,
the disk differs from the one before as `Framed` says: only the file itself, the one it goes to and
the dependents may have changed, directories have come only above the new path, and they have gone
only above the old one, as far as the file was all that was in them.

Each operation on the disk keeps this, whether it succeeds or not, and a sequence of operations
keeps what each of them does.
-/
namespace Relocate

/-- What the rename of a file is about: where the file is and where it is to go, the other files
that are written, and the source roots. -/
structure Scope where
  old : Location
  new : Location
  dependents : List Text
  roots : List Location

namespace Scope

/-- The paths of the files that may change. Into a directory the file goes by its own name. -/
def paths (scope : Scope) : List Text :=
  scope.old.path :: scope.new.path ::
    Path.append scope.new.path (Path.baseName scope.old.path) :: scope.dependents

/-- A directory that may go: it is above the old path and no source root, and it holds no file but
the one to be moved. -/
structure Releases (scope : Scope) (disk : Disk) (location : Location) : Prop where
  above : location <+: scope.old.dropLast
  inner : ∀ root ∈ scope.roots, Text.lower root.path ≠ Text.lower location.path
  empty : ∀ below content, disk.tree.fileAt (location ++ below) = some content →
    location ++ below = scope.old

/-- All locations are such as paths lead to. -/
structure Named (scope : Scope) : Prop where
  old : scope.old.Named
  new : scope.new.Named
  roots : ∀ root ∈ scope.roots, Location.Named root

end Scope

/-- The disk differs from an earlier one at most as the rename of a file may change it. -/
structure Framed (scope : Scope) (before after : Disk) : Prop where
  files : ∀ location, Location.path location ∉ scope.paths →
    after.tree.fileAt location = before.tree.fileAt location
  kept : ∀ location, location ≠ scope.old → (before.tree.fileAt location).isSome = true →
    (after.tree.fileAt location).isSome = true
  made : ∀ location, after.tree.get? location = some .directory →
    before.tree.get? location = some .directory ∨ location <+: scope.new.dropLast
  gone : ∀ location, before.tree.get? location = some .directory →
    after.tree.get? location ≠ some .directory → scope.Releases before location

section Steps

variable {scope : Scope} {disk after : Disk} {location : Location}

/-- A disk that stays as it is keeps within every frame. -/
theorem Framed.refl : Framed scope disk disk where
  files := fun _ _ => rfl
  kept := fun _ _ file => file
  made := fun _ directory => .inl directory
  gone := fun _ directory gone => absurd directory gone

/-- Two changes that each keep within the frame do so together. A directory that the first removes
and the second makes again lies on both ways. -/
theorem Framed.trans {first second third : Disk} (earlier : Framed scope first second)
    (later : Framed scope second third) : Framed scope first third where
  files := fun location apart => (later.files location apart).trans (earlier.files location apart)
  kept := fun location apart file => later.kept location apart (earlier.kept location apart file)
  made := fun location directory =>
    (later.made location directory).elim (earlier.made location) .inr
  gone := by
    intro location directory gone
    by_cases between : second.tree.get? location = some .directory
    · -- The files that were there at first are still there, but for the one that is moved.
      obtain ⟨above, inner, empty⟩ := later.gone location between gone
      refine ⟨above, inner, fun below content file => ?_⟩
      by_contra apart
      obtain ⟨held, still⟩ := Option.isSome_iff_exists.mp
        (earlier.kept _ apart (Option.isSome_iff_exists.mpr ⟨content, file⟩))
      exact apart (empty below held still)
    · exact earlier.gone location directory between

/-- Directories are made above the new path. Making directories changes no file, and the path has no
steps back that could lead elsewhere. -/
theorem framed_makeDirectories (named : scope.new.Named) :
    Framed scope disk (disk.makeDirectories (Path.directory scope.new.path)).1 := by
  have above : Location.Named scope.new.dropLast := named.above (List.dropLast_prefix _)
  rw [directory_path named]
  have made : Disk.Made disk (disk.makeDirectories (Location.path scope.new.dropLast)).1 :=
    Disk.made_makeDirectories rfl
  refine ⟨fun location _ => made.files location, fun location _ file => ?_,
    fun location directory => ?_, fun location directory gone => ?_⟩
  · rwa [made.files]
  · have forward : ['.', '.'] ∉ Disk.steps (Location.path scope.new.dropLast) := by
      rw [steps_path above]
      exact fun member => (above.plain _ member).2 rfl
    have found := Disk.directory_of_makeDirectories forward directory
    rwa [above.destination] at found
  · exact absurd (made.keeps.2 location directory) gone

/-- The file goes from its place to another one that may change. -/
theorem framed_moved {target : Location} {content : Content}
    (moved : Disk.Moved disk after scope.old target content) (own : target.path ∈ scope.paths) :
    Framed scope disk after := by
  have directories (location : Location) : after.tree.get? location = some .directory ↔
      disk.tree.get? location = some .directory := by
    grind [moved.nodes location, moved.free, moved.file]
  refine ⟨fun location apart => ?_, fun location apart file => ?_,
    fun location directory => .inl ((directories location).mp directory),
    fun location directory gone => absurd ((directories location).mpr directory) gone⟩
  · have notTarget : location ≠ target := fun same => apart (same ▸ own)
    have notOld : location ≠ scope.old := fun same => apart (by simp [Scope.paths, same])
    rw [moved.fileAt, if_neg notTarget, if_neg notOld]
  · grind [moved.fileAt location]

/-- A directory above the old path is removed. What goes is this one empty directory. -/
theorem framed_removeDirectory (named : location.Named) (above : location <+: scope.old.dropLast)
    (inner : ∀ root ∈ scope.roots, Text.lower root.path ≠ Text.lower location.path)
    (removed : disk.removeDirectory location.path = .ok after) : Framed scope disk after := by
  have pruned := Disk.pruned_removeDirectory removed
  obtain ⟨below, directory, empty, rfl⟩ := Disk.removeDirectory_ok removed
  rw [named.destination] at below directory empty pruned ⊢
  refine ⟨fun other _ => pruned.files other, fun other _ file => ?_,
    fun other directory => .inl (pruned.directories other directory), fun other held gone => ?_⟩
  · rwa [pruned.files]
  · have same : other = location := by
      by_contra apart
      rw [Disk.eraseDirectory,
        FileTree.get?_erase_leaf below (FileTree.children_eq_nil_iff.mp empty),
        if_neg apart] at gone
      exact gone held
    subst same
    refine ⟨above, inner, fun below content file => ?_⟩
    have found := FileTree.fileAt_eq_some_iff.mp file
    by_cases here : below = []
    · rw [here, List.append_nil, directory] at found
      simp at found
    · rw [FileTree.empty_below empty here] at found
      simp at found

/-- A text is written to a file that may change. -/
theorem framed_write {content : Content} (named : location.Named)
    (own : location.path ∈ scope.paths) (written : disk.write location.path content = .ok after) :
    Framed scope disk after := by
  have files := Disk.fileAt_write written
  rw [named.destination] at files
  refine ⟨fun other apart => ?_, fun other _ file => ?_,
    fun other directory => .inl ((Disk.directory_write_iff written).mp directory),
    fun other directory gone => absurd ((Disk.keepsDirectories_write written).2 _ directory) gone⟩
  · have notHere : other ≠ location := fun same => apart (same ▸ own)
    rw [files, if_neg notHere]
  · rw [files]
    split
    · rfl
    · exact file

/-- In a directory at the new path a file has the path of a location, too. -/
theorem exists_into {old new : Location} (oldNamed : old.Named) (newNamed : new.Named)
    (below : old ≠ []) : ∃ name, Location.Named (new ++ [name]) ∧
      Path.append new.path (Path.baseName old.path) = Location.path (new ++ [name]) := by
  obtain ⟨above, name, rfl⟩ : ∃ above name, old = above ++ [name] :=
    ⟨_, _, (List.dropLast_concat_getLast below).symm⟩
  have nameNamed : Location.Named [name] := fun other member =>
    oldNamed other (List.mem_append_right _ member)
  refine ⟨name, newNamed.append nameNamed, ?_⟩
  rw [baseName_path (isSegment_iff.mp (oldNamed.isSegment name (by simp))).2]
  exact pathBelow_path newNamed nameNamed (by simp)

/-- The file is moved to the new path or into a directory there, or it stays. A move that fails
leaves the disk as it is. One that succeeds ends at the new path or, if a directory is there, in it
under the file's own name. -/
theorem framed_move {place : Place} {content : Content} (named : scope.Named)
    (found : disk.find scope.old.path = .ok (place, .file content)) :
    Framed scope disk (disk.move scope.old.path scope.new.path).1 := by
  generalize result : disk.move scope.old.path scope.new.path = outcome
  obtain ⟨after, error⟩ := outcome
  cases error with
  | some error =>
    rw [Disk.move_file_failed found result]
    exact .refl
  | none =>
    obtain ⟨target, moved, led⟩ := Disk.move_file found result
    obtain ⟨here, file⟩ := Disk.find_destination found
    rw [named.old.destination] at here file
    obtain rfl := here
    refine framed_moved moved ?_
    obtain ⟨-, -, located⟩ | ⟨located, -⟩ := led
    · have below : scope.old ≠ [] := by
        intro top
        rw [top, FileTree.fileAt_eq_some_iff, FileTree.get?_top] at file
        simp at file
      obtain ⟨name, nameNamed, into⟩ := exists_into named.old named.new below
      rw [trimEnd_path named.old below, into] at located
      have reached := congrArg Place.location (Disk.locate_destination located rfl)
      rw [nameNamed.destination] at reached
      simp [Scope.paths, into, show target = scope.new ++ [name] from reached]
    · have reached := congrArg Place.location (Disk.locate_destination located rfl)
      rw [named.new.destination] at reached
      simp [Scope.paths, show target = scope.new from reached]

end Steps

namespace Project

open Action

section Runs

variable {project : Project} {scope : Scope} {base : Disk} {world : World}

/-- Emptied directories are removed one by one, up to a boundary, and each of them lies above the
old path and is no root. By induction on the bound, with the directory above for the next round. -/
theorem leaves_pruneWith {boundaries : List Text} {bound : Nat} {directory : Location}
    (bounded : ∀ root ∈ scope.roots, Text.lower root.path ∈ boundaries)
    (named : directory.Named) (above : directory <+: scope.old.dropLast)
    (framed : Framed scope base world.disk) :
    Leaves (pruneWith boundaries bound directory.path) world (Framed scope base) := by
  induction bound generalizing world directory with
  | zero => exact (reads_pure _).leaves framed
  | succ bound inductionHypothesis =>
    unfold pruneWith
    split
    · exact (reads_pure _).leaves framed
    · rename_i outside
      have inner (root : Location) (member : root ∈ scope.roots) :
          Text.lower root.path ≠ Text.lower directory.path := fun same =>
        outside (List.contains_iff_mem.mpr (same ▸ bounded root member))
      refine (asks_isDirectory _).leaves_bind rfl framed fun found first _ disk => ?_
      split
      · exact (reads_pure _).leaves (disk ▸ framed)
      · refine (asks_list _).leaves_bind disk framed fun empty second _ disk => ?_
        split
        · exact (reads_pure _).leaves (disk ▸ framed)
        · refine (reads_emit _).leaves_bind disk framed fun _ third _ disk => ?_
          rw [← disk] at framed
          have removal (after : Disk)
              (removed : third.disk.removeDirectory directory.path = .ok after) :
              Framed scope base after :=
            framed.trans (framed_removeDirectory named above inner removed)
          refine leaves_bind (leaves_removeDirectory framed removal) fun _ last _ smaller => ?_
          split
          · exact (reads_pure _).leaves smaller
          · rw [directory_path named]
            have shorter := List.dropLast_prefix directory
            exact inductionHypothesis (named.above shorter) (shorter.trans above) smaller

/-- Pruning keeps within the frame, however it ends: it starts in the directory of the old path, and
the roots are its boundaries. -/
theorem leaves_prune (fixed : project.roots = .fixed (scope.roots.map Location.path))
    (named : scope.Named) (framed : Framed scope base world.disk) :
    Leaves (project.prune (Path.directory scope.old.path)) world (Framed scope base) := by
  refine (asks_roots project.roots).leaves_bind rfl framed fun roots first listed disk => ?_
  obtain rfl : roots = scope.roots.map Location.path := by
    rw [fixed] at listed
    exact (Except.ok.inj listed).symm
  refine (asks_normalizeAll _).leaves_bind disk framed fun normals second asked disk => ?_
  obtain rfl := normalizeAll_paths (List.forall_mem_map.mpr fun root member =>
    ⟨root, named.roots root member, rfl⟩) asked
  rw [directory_path named.old]
  refine leaves_pruneWith (fun root member => ?_) (named.old.above (List.dropLast_prefix _))
    List.prefix_rfl (disk ▸ framed)
  exact List.mem_map_of_mem (List.mem_map_of_mem member)

/-- Moving the file keeps within the frame, however it ends. It makes directories on the way to the
new path, moves the file, and prunes from the old directory up. -/
theorem leaves_moveFile (fixed : project.roots = .fixed (scope.roots.map Location.path))
    (named : scope.Named) {place : Place} {content : Content}
    (found : world.disk.find scope.old.path = .ok (place, .file content))
    (framed : Framed scope base world.disk) :
    Leaves (project.moveFile scope.old.path scope.new.path) world (Framed scope base) := by
  refine (reads_emit _).leaves_bind rfl framed fun _ start _ disk => ?_
  rw [← disk] at framed found
  have making := framed.trans (framed_makeDirectories named.new)
  refine leaves_bind (leaves_makeDirectories framed making) fun _ middle ran making => ?_
  have made := Disk.made_makeDirectories (run_makeDirectories_ok ran)
  have still := made.keeps.find found (made.files _)
  have moving := making.trans (framed_move named still)
  refine leaves_bind (leaves_move making moving) fun _ last _ moved => ?_
  exact leaves_prune fixed named moved

/-- Writing to one of the paths of the scope keeps within the frame. -/
theorem leaves_writeText_framed {location : Location} {text : Text} (named : location.Named)
    (own : location.path ∈ scope.paths) (framed : Framed scope base world.disk) :
    Leaves (writeText location.path text) world (Framed scope base) :=
  leaves_writeText framed fun _ written =>
    framed.trans (framed_write named own written)

/-- Texts are written one by one to files that may change. -/
theorem leaves_updates {entries : List (Text × Text)}
    (own : ∀ entry ∈ entries, ∃ location : Location, location.Named ∧ entry.1 = location.path ∧
      location.path ∈ scope.paths) (framed : Framed scope base world.disk) :
    Leaves (forEach entries fun entry => update entry.1 entry.2) world (Framed scope base) := by
  induction entries generalizing world with
  | nil => exact (reads_pure _).leaves framed
  | cons entry entries inductionHypothesis =>
    obtain ⟨location, named, path, inside⟩ := own entry List.mem_cons_self
    have first : Leaves (update entry.1 entry.2) world (Framed scope base) := by
      refine (reads_emit _).leaves_bind rfl framed fun _ start _ disk => ?_
      rw [path]
      exact leaves_writeText_framed named inside (disk ▸ framed)
    refine leaves_bind first fun _ middle _ written => ?_
    exact inductionHypothesis (fun other member => own other (.tail _ member)) written

/-- Carrying out a plan keeps within the frame, however it ends: the file is moved, and then each of
the planned texts is written to a path of the scope. -/
theorem leaves_execute {plan : MovePlan}
    (fixed : project.roots = .fixed (scope.roots.map Location.path))
    (named : scope.Named) {place : Place} {content : Content}
    (oldPath : plan.oldPath = scope.old.path) (newPath : plan.newPath = scope.new.path)
    (own : ∀ entry ∈ plan.updates.entries, ∃ location : Location, location.Named ∧
      entry.1 = location.path ∧ location.path ∈ scope.paths)
    (found : world.disk.find scope.old.path = .ok (place, .file content))
    (framed : Framed scope base world.disk) :
    Leaves (project.execute plan) world (Framed scope base) := by
  have moving := leaves_moveFile fixed named found framed
  rw [← oldPath, ← newPath] at moving
  refine leaves_bind moving fun _ moved _ framed => ?_
  have naming : Leaves (renameOwnModule plan) moved (Framed scope base) := by
    refine (reads_readText _).leaves_bind rfl framed fun text start _ disk => ?_
    rw [newPath]
    exact leaves_writeText_framed named.new (by simp [Scope.paths]) (disk ▸ framed)
  refine leaves_bind naming fun _ renamed _ framed => ?_
  exact leaves_bind (leaves_updates own framed) fun _ written _ framed =>
    (reads_pure _).leaves framed

/-- Renaming a file keeps within the frame, however it ends. The dependents of the scope are those
that the plan has texts for; a file without a module is only moved. -/
theorem leaves_renameFile (scope : Scope) (filesNamed : world.disk.FilesNamed)
    (fixed : project.roots = .fixed (scope.roots.map Location.path)) (named : scope.Named)
    {place : Place} {content : Content}
    (found : world.disk.find scope.old.path = .ok (place, .file content))
    (dependents : scope.dependents =
      ((project.dependentFiles scope.old.path).run world).1.toOption.getD []) :
    Leaves (project.renameFile scope.old.path scope.new.path) world (Framed scope world.disk) := by
  have framed : Framed scope world.disk world.disk := .refl
  refine (reads_declaredModule project _).leaves_bind rfl framed ?_
  intro module start declared disk
  cases module with
  | none =>
    have moving : Leaves (project.moveFile scope.old.path scope.new.path) start
        (Framed scope world.disk) :=
      leaves_moveFile fixed named (disk.symm ▸ found) (disk.symm ▸ framed)
    exact leaves_bind moving fun _ moved _ framed => (reads_pure _).leaves framed
  | some module =>
    refine (reads_plan project _ _ module).leaves_bind disk framed fun plan ready planned disk => ?_
    obtain ⟨newModule, graph, texts, -, built, worked, rfl⟩ := plan_ok planned
    rw [dependentFiles_some declared built] at dependents
    have own : ∀ entry ∈ (OrderedMap.ofList texts).entries, ∃ location : Location,
        location.Named ∧ entry.1 = location.path ∧ location.path ∈ scope.paths := by
      intro entry member
      have dependent : entry.1 ∈ graph.dependentsOf module :=
        (updatedTexts_ok worked).1 ▸ List.mem_map_of_mem (OrderedMap.mem_of_mem_ofList member)
      obtain ⟨location, path, source, -⟩ :=
        (mem_dependentsOf_iff filesNamed named.roots fixed built).mp dependent
      obtain ⟨content, file⟩ := source.file
      refine ⟨location, filesNamed _ _ file, path, ?_⟩
      rw [← path]
      simp only [Scope.paths, dependents, List.mem_cons]
      exact .inr (.inr (.inr dependent))
    exact leaves_execute fixed named rfl rfl own (disk ▸ found) (disk ▸ framed)

end Runs

/-- What is above the directory of a location is above the location. -/
theorem exists_names_below {location whole : Location} (above : location <+: whole.dropLast)
    (below : whole ≠ []) : ∃ names, names ≠ [] ∧ whole = location ++ names := by
  obtain ⟨rest, same⟩ := above
  refine ⟨rest ++ [whole.getLast below], by simp, ?_⟩
  rw [← List.append_assoc, same, List.dropLast_concat_getLast]

/-- Whichever way the rename of a file ends and wherever it stops, it changes no file but the one
that is renamed, the one at the new path, one of its name in a directory there, and those that
depend on its module. Only directories above the old path that are no source roots go, if the file
was all that was below them, and only directories above the new path come. Every step of the rename
keeps within the frame of its scope, also if it fails half-way, and frames add up. -/
theorem renameFile_frame {project : Project} {world after : World} {old new : Text}
    {roots dependents : List Text} {result : Except Failure (List Text)}
    (ordinary : project.OrdinaryPaths world.disk old new)
    (oldNormal : world.disk.normalize old = .ok old)
    (newNormal : world.disk.normalize new = .ok new) (file : world.disk.isFile old = true)
    (fixed : project.roots = .fixed roots)
    (dependent : dependents = ((project.dependentFiles old).run world).1.toOption.getD [])
    (run : (project.renameFile old new).run world = (result, after)) :
    (∀ location : Location, location.path ≠ old → location.path ≠ new →
      location.path ≠ Path.append new (Path.baseName old) → location.path ∉ dependents →
      after.disk.tree.fileAt location = world.disk.tree.fileAt location) ∧
    (∀ location : Location, world.disk.tree.get? location = some .directory →
      after.disk.tree.get? location ≠ some .directory →
      (∃ names, names ≠ [] ∧ old = Location.path (location ++ names)) ∧
        (∀ root ∈ roots, Text.lower root ≠ Text.lower location.path) ∧
        ∀ below content, world.disk.tree.fileAt (location ++ below) = some content →
          Location.path (location ++ below) = old) ∧
    ∀ location : Location, after.disk.tree.get? location = some .directory →
      world.disk.tree.get? location ≠ some .directory →
      ∃ names, names ≠ [] ∧ new = Location.path (location ++ names) := by
  obtain ⟨oldPlace, oldNamed, rfl⟩ := ordinary.exists_location ordinary.old oldNormal
  obtain ⟨newPlace, newNamed, rfl⟩ := ordinary.exists_location ordinary.new newNormal
  obtain ⟨locations, rootsNamed, listed⟩ := ordinary.exists_roots
  obtain rfl := SourceRoots.fixed.inj (fixed.symm.trans listed)
  obtain ⟨place, content, found⟩ := exists_find_of_isFile file
  have framed := leaves_renameFile ⟨oldPlace, newPlace, dependents, locations⟩
    ordinary.filesNamed fixed ⟨oldNamed, newNamed, rootsNamed⟩ found dependent
  rw [Leaves, run] at framed
  refine ⟨fun location notOld notNew notInto notDependent => ?_, fun location directory gone => ?_,
    fun location directory missing => ?_⟩
  · apply framed.files
    simp only [Scope.paths, List.mem_cons, not_or]
    exact ⟨notOld, notNew, notInto, notDependent⟩
  · obtain ⟨above, inner, empty⟩ := framed.gone location directory gone
    have below : oldPlace ≠ [] := by
      rintro rfl
      have top := fileAt_of_find oldNamed found
      simp at top
    obtain ⟨names, nonempty, whole⟩ := exists_names_below above below
    refine ⟨⟨names, nonempty, congrArg Location.path whole⟩, fun root member => ?_,
      fun below content file => congrArg Location.path (empty below content file)⟩
    obtain ⟨place, inside, rfl⟩ := List.mem_map.mp member
    exact inner place inside
  · obtain before | above := framed.made location directory
    · exact absurd before missing
    · have below : newPlace ≠ [] := by
        rintro rfl
        obtain rfl := List.prefix_nil.mp above
        exact missing (FileTree.get?_top _)
      obtain ⟨names, proper, whole⟩ := exists_names_below above below
      exact ⟨names, proper, congrArg Location.path whole⟩

/-- A disk with a source file alone in its directory, a file that depends on its module and refuses
to be written, and a file that is no source. -/
def lockedDependent : World where
  disk :=
    ⟨⟨[(["r".toList], .directory), (["r".toList, "a".toList], .directory),
      (["r".toList, "a".toList, "x.clj".toList], .file (.text "(ns a.x)".toList)),
      (["r".toList, "n.txt".toList], .file (.text "a.x".toList)),
      (["r".toList, "u.clj".toList], .file (.text "(ns u (:require a.x))".toList))], by decide⟩,
      .ofLocation []⟩
  locked := ["/r/u.clj".toList]
  events := []

/-- The rename of the first file, which stops when its dependent is to be written. -/
def lockedRenamed : Except Failure (List Text) × World :=
  (oneRoot.renameFile "/r/a/x.clj".toList "/r/b/y.clj".toList).run lockedDependent

/-- The write to the dependent file is refused half-way. The file beside them is as it was, and the
directories that have come and gone lie on the two paths. -/
theorem renameFile_frame_locked :
    lockedRenamed.1 = .error (.writeRefused "/r/u.clj".toList) ∧
      lockedRenamed.2.disk.tree.fileAt ["r".toList, "n.txt".toList] = some (.text "a.x".toList) ∧
      (∃ names, names ≠ [] ∧
        "/r/a/x.clj".toList = Location.path (["r".toList, "a".toList] ++ names)) ∧
      ∃ names, names ≠ [] ∧
        "/r/b/y.clj".toList = Location.path (["r".toList, "b".toList] ++ names) := by
  have ordinary : oneRoot.OrdinaryPaths lockedDependent.disk "/r/a/x.clj".toList
      "/r/b/y.clj".toList :=
    ⟨⟨⟨[], ["/r".toList], by decide, by decide, rfl⟩, by decide⟩, by decide, by decide, by decide⟩
  have dependent : ["/r/u.clj".toList] =
      ((oneRoot.dependentFiles "/r/a/x.clj".toList).run lockedDependent).1.toOption.getD [] := by
    decide +kernel
  have stopped : lockedRenamed.1 = .error (.writeRefused "/r/u.clj".toList) := by decide +kernel
  have run : lockedRenamed = (.error (.writeRefused "/r/u.clj".toList), lockedRenamed.2) := by
    rw [← stopped]
  have oldNormal : lockedDependent.disk.normalize "/r/a/x.clj".toList =
      .ok "/r/a/x.clj".toList := by decide +kernel
  have newNormal : lockedDependent.disk.normalize "/r/b/y.clj".toList =
      .ok "/r/b/y.clj".toList := by decide +kernel
  have file : lockedDependent.disk.isFile "/r/a/x.clj".toList = true := by decide +kernel
  have fixed : oneRoot.roots = .fixed ["/r".toList] := by decide +kernel
  obtain ⟨files, gone, made⟩ :=
    renameFile_frame ordinary oldNormal newNormal file fixed dependent run
  have kept := files ["r".toList, "n.txt".toList] (by decide) (by decide) (by decide) (by decide)
  have removed := gone ["r".toList, "a".toList] (by decide +kernel) (by decide +kernel)
  exact ⟨stopped, kept.trans (by decide +kernel), removed.1,
    made ["r".toList, "b".toList] (by decide +kernel) (by decide +kernel)⟩

end Project

end Relocate
