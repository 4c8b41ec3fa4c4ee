import Relocate.Proofs.Disk.Locations
import Relocate.Proofs.Rename.Moves

/-!
# One rename among several

A directory is renamed by renaming the files below it one after the other, each on the disk that the
renames before it have left. `carried_renameFile` says what one of them does to the disk, for files
with and without a module, and `mem_written_renameFile` which files it lists. What each of them
keeps is kept by all: `renameEach_collects`.
-/
namespace Relocate.Project

/-- The module that a file declares and the one that it is to declare at its new path. -/
def moduleRename (project : Project) (old new : Text) : Action (Option (Text × Text)) := do
  match ← project.declaredModule old with
  | none => pure none
  | some module =>
    let newModule ← project.resolve new
    pure (some (module, newModule))

/-- What a renamed file holds: what it held, with its module renamed at the first place where that
stands. -/
def renamedContent : Option (Text × Text) → Content → Content
  | some (module, newModule), .text text => .text (Text.replaceFirst module newModule text)
  | _, content => content

/-- Where a file has gone: to where the new path leads, so that a file is found there, or into the
directory that is there. -/
def Landed (before : Disk) (old new : Text) (target : Location) : Prop :=
  ∃ other : Disk, before.cwd.Withdrawn other.cwd ∧
    ((∃ content, other.find new = .ok (.ofLocation target, .file content)) ∨
      other.locate (Path.append new (Path.baseName (Text.trimEnd '/' old))) =
          .ok (.ofLocation target) ∧
        before.tree.fileAt target = none ∧
        (before.makeDirectories (Path.directory new)).1.isDirectory new = true)

/-- The disk after a file has been renamed: the file has gone to the target, and the files that
depend on its module have been written. -/
structure Carried (before after : Disk) (source : Location) (old new : Text)
    (rename : Option (Text × Text)) (content : Content) (dependents : List Text)
    (target : Location) : Prop where
  confined : Confined before after new
  landed : Landed before old new target
  files : ∀ location,
    (∃ path ∈ dependents, Path.destination path = location ∧
      ∃ module newModule earlier later, rename = some (module, newModule) ∧
        before.read path = .ok (.text earlier) ∧
        renameInText module newModule earlier = .ok later ∧
        after.tree.fileAt location = some (.text later)) ∨
    ((∀ path ∈ dependents, Path.destination path ≠ location) ∧
      after.tree.fileAt location =
        if location = target then some (renamedContent rename content)
        else if location = source then none
        else before.tree.fileAt location)

open Action

section Steps

/-- Where a directory is seen, one is found. -/
theorem exists_find_of_isDirectory {disk : Disk} {path : Text}
    (directory : disk.isDirectory path = true) :
    ∃ place, disk.find path = .ok (place, .directory) := by
  unfold Disk.isDirectory at directory
  split at directory
  · exact ⟨_, ‹_›⟩
  · simp at directory

variable {project : Project} {world after : World} {old new : Text} {place : Place}
  {content : Content} {rename : Option (Text × Text)} {dependents written : List Text}

/-- Asking how a module is renamed leaves the disk as it is. -/
theorem reads_moduleRename (project : Project) (old new : Text) :
    Reads (project.moduleRename old new) := by
  refine (reads_declaredModule project old).bind fun found => ?_
  cases found with
  | none => exact reads_pure _
  | some module => exact (reads_resolve project new).bind fun _ => reads_pure _

/-- A rename of a module follows from what the file declares and from its new path. By cases on
whether the file declares a module. -/
theorem moduleRename_ok_iff :
    ((project.moduleRename old new).run world).1 = .ok rename ↔
      ((project.declaredModule old).run world).1 = .ok (rename.map Prod.fst) ∧
        ∀ module newModule, rename = some (module, newModule) →
          ((project.resolve new).run world).1 = .ok newModule := by
  rw [moduleRename, (reads_declaredModule project old).value_bind_ok_iff]
  case later =>
    intro found
    cases found with
    | none => exact reads_pure _
    | some module => exact (reads_resolve project new).bind fun _ => reads_pure _
  constructor
  · rintro ⟨found, declared, rest⟩
    cases found with
    | none =>
      obtain rfl := Except.ok.inj rest
      exact ⟨declared, by simp⟩
    | some module =>
      rw [(reads_resolve project new).value_bind_ok_iff fun _ => reads_pure _] at rest
      obtain ⟨newModule, resolved, same⟩ := rest
      obtain rfl := Except.ok.inj same
      refine ⟨declared, fun other newName same => ?_⟩
      obtain ⟨-, rfl⟩ := Prod.mk.inj (Option.some.inj same)
      exact resolved
  · rintro ⟨declared, resolved⟩
    refine ⟨_, declared, ?_⟩
    cases rename with
    | none => rfl
    | some pair =>
      obtain ⟨module, newModule⟩ := pair
      exact ((reads_resolve project new).value_bind_ok_iff fun _ => reads_pure _).mpr
        ⟨newModule, resolved module newModule rfl, rfl⟩

/-- The files that are written with a renamed one are those that the graph finds. -/
theorem dependentFiles_ok
    (asked : ((project.dependentFiles old).run world).1 = .ok dependents) :
    ((project.declaredModule old).run world).1 = .ok none ∧ dependents = [] ∨
      ∃ module graph, ((project.declaredModule old).run world).1 = .ok (some module) ∧
        (project.graph.run world).1 = .ok graph ∧ dependents = graph.dependentsOf module := by
  obtain ⟨found, middle, declared, disk, rest⟩ :=
    (reads_declaredModule project old).run_bind_ok rfl (Prod.ext asked rfl)
  cases found with
  | none => exact .inl ⟨declared, (Except.ok.inj (congrArg Prod.fst rest)).symm⟩
  | some module =>
    obtain ⟨graph, last, built, -, rest⟩ := (reads_graph project).run_bind_ok disk rest
    exact .inr ⟨module, graph, declared, built, (Except.ok.inj (congrArg Prod.fst rest)).symm⟩

/-- A file that has been renamed was found at its path before. The rename has followed the path, to
read the file or to move it, and a direct path that can be followed leads to its location. -/
theorem find_of_renameFile (direct : Path.isDirect old = true)
    (file : world.disk.tree.fileAt (Path.destination old) = some content)
    (run : (project.renameFile old new).run world = (.ok written, after)) :
    world.disk.find old = .ok (.ofLocation (Path.destination old), .file content) := by
  have located : ∃ (other : Disk) (place : Place), other.locate old = .ok place := by
    obtain ⟨module, middle, declared, -, -⟩ :=
      (reads_declaredModule project old).run_bind_ok rfl run
    cases module with
    | none =>
      obtain ⟨start, -, run⟩ := renameFile_plain declared run
      obtain ⟨done, first, -, run⟩ := run_bind_ok_iff.mp run
      obtain ⟨done, second, -, run⟩ := run_bind_ok_iff.mp run
      obtain ⟨done, third, moving, -⟩ := run_bind_ok_iff.mp run
      obtain ⟨result, found⟩ := Disk.find_of_move (run_move_ok moving)
      exact ⟨_, _, Disk.locate_of_find found⟩
    | some module =>
      obtain ⟨-, text, declaration, read, -⟩ := declaredModule_some declared
      obtain ⟨place, found⟩ := Disk.find_of_read read
      exact ⟨_, _, Disk.locate_of_find found⟩
  obtain ⟨other, place, located⟩ := located
  exact find_direct direct located (FileTree.fileAt_eq_some_iff.mp file)

/-- A file without a module is only moved. By cases on whether the new path leads to a directory,
into which the file has then been moved. -/
theorem carried_plain (found : world.disk.find old = .ok (place, .file content))
    (declared : ((project.declaredModule old).run world).1 = .ok none)
    (run : (project.renameFile old new).run world = (.ok written, after)) :
    ∃ target, Carried world.disk after.disk place.location old new none content [] target := by
  have confined := confined_renameFile found run
  obtain ⟨start, disk, moving⟩ := renameFile_plain declared run
  rw [← disk] at found confined ⊢
  obtain ⟨made, moved, target, directories, making, moving, led, pruning⟩ :=
    moveFile_ok found moving
  refine ⟨target, confined, ?_, fun location => .inr ⟨by simp, ?_⟩⟩
  · obtain ⟨⟨directory, there⟩, free, located⟩ | ⟨located, noSlash⟩ := led
    · refine ⟨made, making.keeps.1 ▸ .refl _, .inr ⟨located, ?_, ?_⟩⟩
      · rw [← making.files, FileTree.fileAt, free]
      · simp [directories, Disk.isDirectory, there]
    · have file := moving.fileAt target
      rw [if_pos rfl] at file
      refine ⟨moved, (moving.cwd.trans making.keeps.1) ▸ .refl _, .inl ⟨content,
        Disk.find_file_iff.mpr ⟨moving.keeps.locate located, ?_, noSlash⟩⟩⟩
      exact Disk.nodeAt_file_iff.mpr ⟨rfl, file⟩
  · rw [pruning.files, moving.fileAt, making.files]
    rfl

/-- What the rename of a file does to the disk. By cases on whether the file declares a module. -/
theorem carried_renameFile (found : world.disk.find old = .ok (place, .file content))
    (run : (project.renameFile old new).run world = (.ok written, after)) :
    ∃ rename dependents target,
      ((project.moduleRename old new).run world).1 = .ok rename ∧
      ((project.dependentFiles old).run world).1 = .ok dependents ∧
      Carried world.disk after.disk place.location old new rename content dependents target := by
  obtain ⟨module, -, declared, -, -⟩ := (reads_declaredModule project old).run_bind_ok rfl run
  cases module with
  | none =>
    obtain ⟨target, carried⟩ := carried_plain found declared run
    exact ⟨none, [], target, moduleRename_ok_iff.mpr ⟨declared, by simp⟩,
      dependentFiles_none declared, carried⟩
  | some module =>
    have confined := confined_renameFile found run
    obtain ⟨-, text, -, read, -⟩ := declaredModule_some declared
    obtain rfl := Except.ok.inj ((Disk.read_of_find found).symm.trans read)
    obtain ⟨newModule, graph, resolved, built, ⟨held, there⟩, -, files⟩ :=
      renameFile_files found declared run
    refine ⟨some (module, newModule), _, world.disk.destination new,
      moduleRename_ok_iff.mpr ⟨declared, fun name newName same => ?_⟩,
      dependentFiles_some declared built, confined,
      ⟨after.disk, confined.cwd, .inl ⟨held, there⟩⟩, fun location => ?_⟩
    · obtain ⟨-, rfl⟩ := Prod.mk.inj (Option.some.inj same)
      exact resolved
    · obtain ⟨path, member, earlier, later, leads, held, worked, written⟩ | others :=
        files location
      · exact .inl ⟨path, member, leads, module, newModule, earlier, later, rfl, held, worked,
          written⟩
      · exact .inr others

/-- A file goes to where its new path leads, if no directory is there. For it goes into a directory
only if there is one once those above the new path have been made, and none of these is at the new
path itself. -/
theorem Landed.target_eq {current : Disk} {goal target : Location}
    (forward : Path.isForward new = true)
    (leads : ∀ (other : Disk) (location : Location), current.cwd.Withdrawn other.cwd →
      other.locate new = .ok (.ofLocation location) →
      location = goal ∧ current.tree.get? goal ≠ some .directory)
    (landed : Landed current old new target) :
    target = goal ∧ ∃ (other : Disk) (place : Place), current.cwd.Withdrawn other.cwd ∧
      other.locate new = .ok place := by
  obtain ⟨other, withdrawn, ⟨content, found⟩ | ⟨-, -, directory⟩⟩ := landed
  · have located := Disk.locate_of_find found
    exact ⟨(leads other target withdrawn located).1, other, _, withdrawn, located⟩
  · exfalso
    generalize making : current.makeDirectories (Path.directory new) = result at directory
    obtain ⟨made, error⟩ := result
    obtain ⟨place, found⟩ := exists_find_of_isDirectory directory
    obtain ⟨located, node⟩ := Disk.find_directory_iff.mp found
    obtain ⟨_, last, split, notHere, noUp, -⟩ := isForward_iff.mp forward
    obtain ⟨above, rfl⟩ := Disk.exists_above_of_last located (split ▸ List.getLast?_concat) notHere
      fun up => noUp (split ▸ up ▸ List.mem_append_right _ (List.mem_singleton_self _))
    have withdrawn : current.cwd.Withdrawn made.cwd :=
      (Disk.made_makeDirectories making).keeps.1 ▸ .refl _
    obtain ⟨rfl, free⟩ := leads made _ withdrawn located
    obtain before | higher := Disk.directory_of_makeParents forward (making ▸ node)
    · exact free before
    · have longer := higher.length_le
      rw [Disk.destination_of_withdrawn withdrawn located, List.dropLast_concat] at longer
      simp only [Place.ofLocation, List.length_append, List.length_singleton] at longer
      omega

/-- A file is where the renamed one has gone. -/
theorem Carried.arrived {before after : Disk} {source target : Location}
    (carried : Carried before after source old new rename content dependents target) :
    ∃ held, after.tree.fileAt target = some held := by
  obtain ⟨_, -, -, _, _, _, _, -, -, -, written⟩ | ⟨-, moved⟩ := carried.files target
  · exact ⟨_, written⟩
  · exact ⟨_, moved.trans (if_pos rfl)⟩

/-- The files that a rename lists are the renamed one, by its new path, and those that are written
with it. By cases on whether the file declares a module. -/
theorem mem_written_renameFile
    (asked : ((project.dependentFiles old).run world).1 = .ok dependents)
    (run : (project.renameFile old new).run world = (.ok written, after)) {path : Text} :
    path ∈ written ↔ path = new ∨ path ∈ dependents := by
  obtain ⟨found, start, declared, disk, rest⟩ :=
    (reads_declaredModule project old).run_bind_ok rfl run
  cases found with
  | none =>
    obtain rfl := Except.ok.inj (asked.symm.trans (dependentFiles_none declared))
    obtain ⟨done, moved, -, rest⟩ := run_bind_ok_iff.mp rest
    obtain ⟨same, -⟩ := Prod.mk.inj rest
    simp [← Except.ok.inj same]
  | some module =>
    obtain ⟨plan, ready, planned, -, rest⟩ :=
      (reads_plan project old new module).run_bind_ok disk rest
    obtain ⟨newModule, graph, texts, -, built, worked, rfl⟩ := plan_ok planned
    obtain rfl := Except.ok.inj (asked.symm.trans (dependentFiles_some declared built))
    obtain ⟨done, moved, -, rest⟩ := run_bind_ok_iff.mp rest
    obtain ⟨done, named, -, rest⟩ := run_bind_ok_iff.mp rest
    obtain ⟨done, finished, -, rest⟩ := run_bind_ok_iff.mp rest
    obtain ⟨same, -⟩ := Prod.mk.inj rest
    rw [← Except.ok.inj same, Text.mem_sortedSet, List.mem_cons, OrderedMap.mem_keys_ofList,
      (updatedTexts_ok worked).1]

/-- What holds at first and is kept by every rename, of the disk and of the files listed so far,
holds after all of them. -/
theorem renameEach_collects {α : Type} (move : α → Text × Text) {items : List α}
    (holds : List α → List Text → Disk → Prop) (first : holds [] [] world.disk)
    (step : ∀ done item later current next before written, items = done ++ item :: later →
      holds done before current.disk →
      (project.renameFile (move item).1 (move item).2).run current = (.ok written, next) →
      holds (done ++ [item]) (before ++ written) next.disk)
    (run : (project.renameEach (items.map move)).run world = (.ok written, after)) :
    holds items written after.disk := by
  induction items generalizing world holds written with
  | nil =>
    obtain ⟨same, rfl⟩ := Prod.mk.inj run
    obtain rfl := Except.ok.inj same
    exact first
  | cons item items inductionHypothesis =>
    obtain ⟨own, middle, renamed, rest⟩ := run_bind_ok_iff.mp run
    obtain ⟨others, last, later, rest⟩ := run_bind_ok_iff.mp rest
    obtain ⟨same, rfl⟩ := Prod.mk.inj rest
    obtain rfl := Except.ok.inj same
    refine inductionHypothesis
      (fun done before disk => holds (item :: done) (own ++ before) disk) ?_ ?_ later
    · rw [List.append_nil]
      exact step [] item items world middle [] own rfl first renamed
    · intro done other remaining current next before written split kept run
      rw [← List.append_assoc]
      exact step (item :: done) other remaining current next (own ++ before) written
        (by rw [split]; rfl) kept run

/-- What holds at first and is kept by every rename holds after all of them. -/
theorem renameEach_preserves {α : Type} (move : α → Text × Text) {items : List α}
    (holds : List α → Disk → Prop) (first : holds [] world.disk)
    (step : ∀ done item later current next written, items = done ++ item :: later →
      holds done current.disk →
      (project.renameFile (move item).1 (move item).2).run current = (.ok written, next) →
      holds (done ++ [item]) next.disk)
    (run : (project.renameEach (items.map move)).run world = (.ok written, after)) :
    holds items after.disk :=
  renameEach_collects move (fun done _ disk => holds done disk) first
    (fun done item later current next _ => step done item later current next) run

end Steps

end Relocate.Project
