import Relocate.Proofs.Rename.Effect

/-!
# A renamed file is at its new path, and when it is gone from the old one

The files that depend on a renamed module are worked out before the file is moved and written after
it. If a dependent leads to the old path, that write makes a file there again. This is the only way
in which a file can be at the old path after a rename: `rename_moves`. A file that requires its own
module is such a dependent.

At the new path a file is found, provided that the path is direct. A normalized path without
backslashes is direct unless it is the top; one with backslashes may end in a slash or hold `..`,
and then need not lead to the file.
-/
namespace Relocate.Project

/-- The files that are written with a renamed one: those that depend on the module it declares. -/
def dependentFiles (project : Project) (path : Text) : Action (List Text) := do
  match ← project.declaredModule path with
  | none => pure []
  | some module =>
    let graph ← project.graph
    pure (graph.dependentsOf module)

open Action

section

variable {project : Project} {world after : World} {old new oldPath newPath module : Text}
  {place : Place} {content : Content} {written listed : List Text}

/-- A file that declares no module has no dependents. -/
theorem dependentFiles_none (declared : ((project.declaredModule old).run world).1 = .ok none) :
    ((project.dependentFiles old).run world).1 = .ok [] := by
  rw [dependentFiles, (reads_declaredModule project old).value_bind_ok_iff]
  · exact ⟨none, declared, rfl⟩
  · intro found
    cases found with
    | none => exact reads_pure _
    | some module => exact (reads_graph project).bind fun graph => reads_pure _

/-- The dependents of a file are those that the graph has for its module. Both actions only read, so
that the graph is the one of the world that the module was asked in. -/
theorem dependentFiles_some {graph : ModuleGraph}
    (declared : ((project.declaredModule old).run world).1 = .ok (some module))
    (built : (project.graph.run world).1 = .ok graph) :
    ((project.dependentFiles old).run world).1 = .ok (graph.dependentsOf module) := by
  rw [dependentFiles, (reads_declaredModule project old).value_bind_ok_iff]
  · refine ⟨some module, declared, ?_⟩
    rw [(reads_graph project).value_bind_ok_iff fun graph => reads_pure _]
    exact ⟨graph, built, rfl⟩
  · intro found
    cases found with
    | none => exact reads_pure _
    | some module => exact (reads_graph project).bind fun graph => reads_pure _

/-- A path that leads to where a file is leads to that file, if it asks for no directory. -/
theorem isFile_of_locate {disk : Disk} {path other : Text} {place : Place} {content : Content}
    (found : disk.find other = .ok (place, .file content))
    (same : disk.locate other = disk.locate path) (plain : Disk.wantsDirectory path = false) :
    disk.isFile path = true := by
  obtain ⟨located, node, -⟩ := Disk.find_file_iff.mp found
  have here : disk.find path = .ok (place, .file content) :=
    Disk.find_file_iff.mpr ⟨same ▸ located, node, plain⟩
  simp [Disk.isFile, here]

/-- Where a file is said to be, it is found with what it holds. -/
theorem exists_find_of_isFile {disk : Disk} {path : Text} (file : disk.isFile path = true) :
    ∃ place content, disk.find path = .ok (place, .file content) := by
  unfold Disk.isFile at file
  split at file
  · rename_i place content found
    exact ⟨place, content, found⟩
  · simp at file

/-- A file at an absolute path is where the path leads. -/
theorem location_of_find (absolute : Path.isAbsolute old = true)
    (found : world.disk.find old = .ok (place, .file content)) :
    place.location = Path.destination old := by
  rw [(Disk.find_destination found).1, Disk.destination_absolute _ absolute]
  rfl

/-- A file is not where nothing is. -/
theorem apart_of_free (absolute : Path.isAbsolute old = true)
    (found : world.disk.find old = .ok (place, .file content))
    (free : world.disk.tree.get? (Path.destination new) = none) :
    Path.destination old ≠ Path.destination new := by
  intro same
  have here := (Disk.find_destination found).2
  rw [Disk.destination_absolute _ absolute, FileTree.fileAt_eq_some_iff, same, free] at here
  simp at here

/-- After a file without a module has been moved to a direct path, it is there and not at its old
path. -/
theorem renameFile_moves_plain (found : world.disk.find old = .ok (place, .file content))
    (absolute : Path.isAbsolute old = true) (direct : Path.isDirect new = true)
    (absent : world.disk.pathExists new = false)
    (declared : ((project.declaredModule old).run world).1 = .ok none)
    (run : (project.renameFile old new).run world = (.ok written, after)) :
    after.disk.isFile new = true ∧ after.disk.isFile old = false := by
  obtain ⟨start, disk, moving⟩ := renameFile_plain declared run
  rw [← disk] at found absent
  obtain ⟨relocated, there, free⟩ := moveFile_direct found direct absent moving
  refine ⟨by simp [Disk.isFile, there], ?_⟩
  rw [Bool.eq_false_iff]
  intro file
  obtain ⟨spot, held, still⟩ := exists_find_of_isFile file
  have held := (Disk.find_destination still).2
  rw [Disk.destination_absolute _ absolute, relocated.files,
    if_neg (apart_of_free absolute found free),
    if_pos (location_of_find absolute found).symm] at held
  simp at held

/-- After a file with a module has been renamed to a direct path, it is there. A file is at its old
path exactly if a dependent leads there. -/
theorem renameFile_moves_module {text : Text}
    (found : world.disk.find old = .ok (place, .file (.text text)))
    (absolute : Path.isAbsolute old = true) (direct : Path.isDirect new = true)
    (absent : world.disk.pathExists new = false)
    (declared : ((project.declaredModule old).run world).1 = .ok (some module))
    (run : (project.renameFile old new).run world = (.ok written, after)) :
    after.disk.isFile new = true ∧ ∃ graph, (project.graph.run world).1 = .ok graph ∧
      (after.disk.isFile old = true ↔
        ∃ path ∈ graph.dependentsOf module, after.disk.locate path = after.disk.locate old) := by
  obtain ⟨newModule, graph, -, built, ⟨content, there⟩, led, files⟩ :=
    renameFile_files found declared run
  have newAbsolute := (isDirect_iff.mp direct).1
  rw [Disk.destination_absolute _ newAbsolute] at there files
  have located := (Disk.find_file_iff.mp there).1
  have plain := (Disk.find_file_iff.mp found).2.2
  have free := free_of_not_exists direct located absent
  have apart := apart_of_free absolute found free
  refine ⟨by simp [Disk.isFile, there], graph, built, ?_⟩
  constructor
  · intro file
    obtain ⟨spot, held, still⟩ := exists_find_of_isFile file
    have here := (Disk.find_destination still).2
    rw [Disk.destination_absolute _ absolute] at here
    obtain ⟨path, dependent, -, -, leads, -⟩ | ⟨-, kept⟩ := files (Path.destination old)
    · obtain ⟨other, reached⟩ := led path dependent
      refine ⟨path, dependent, ?_⟩
      rw [(Disk.find_file_iff.mp reached).1, leads, (Disk.find_file_iff.mp still).1,
        (Disk.find_destination still).1, Disk.destination_absolute _ absolute]
    · rw [kept, if_neg apart, if_pos (location_of_find absolute found).symm] at here
      simp at here
  · rintro ⟨path, dependent, same⟩
    obtain ⟨other, reached⟩ := led path dependent
    exact isFile_of_locate reached same plain

end

/-- A renamed file is at its new path. A file is at its old path exactly if a file that depends on
the module it declares leads there. The move takes the file away, and the texts that are written
after it are those of the dependents, so that only one of these can be at the old path. -/
theorem rename_moves {project : Project} {world after : World} {old new oldPath newPath : Text}
    {listed : List Text} (oldNormal : world.disk.normalize old = .ok oldPath)
    (newNormal : world.disk.normalize new = .ok newPath) (file : world.disk.isFile oldPath = true)
    (absent : world.disk.pathExists newPath = false) (direct : Path.isDirect newPath = true)
    (run : (project.rename (some old) (some new)).run world = (.ok listed, after)) :
    after.disk.isFile newPath = true ∧
      ∃ dependents, ((project.dependentFiles oldPath).run world).1 = .ok dependents ∧
        (after.disk.isFile oldPath = true ↔
          ∃ path ∈ dependents, after.disk.locate path = after.disk.locate oldPath) := by
  have absolute := isAbsolute_of_normalize oldNormal
  obtain ⟨start, finished, written, startDisk, finishedDisk, run⟩ :=
    rename_file oldNormal newNormal file run
  obtain ⟨place, content, found⟩ := exists_find_of_isFile file
  rw [finishedDisk]
  rw [← startDisk] at found absent
  obtain ⟨module, middle, declared, -, -⟩ :=
    (reads_declaredModule project oldPath).run_bind_ok startDisk run
  have fromStart := (reads_declaredModule project oldPath).value world start startDisk
  cases module with
  | none =>
    obtain ⟨there, gone⟩ := renameFile_moves_plain found absolute direct absent
      (fromStart.trans declared) run
    exact ⟨there, [], dependentFiles_none declared, by simp [gone]⟩
  | some module =>
    obtain ⟨-, text, declaration, read, -, -⟩ := declaredModule_some (fromStart.trans declared)
    obtain ⟨spot, text⟩ := Disk.find_of_read read
    obtain ⟨rfl, same⟩ := Prod.mk.inj (Except.ok.inj (found.symm.trans text))
    obtain rfl := Node.file.inj same
    obtain ⟨there, graph, built, iff⟩ := renameFile_moves_module found absolute direct
      absent (fromStart.trans declared) run
    rw [(reads_graph project).value world start startDisk] at built
    exact ⟨there, _, dependentFiles_some declared built, iff⟩

/-- The project whose only source root is `/r`. -/
def oneRoot : Project := ⟨.ofPaths ['/'] ["/r".toList], defaultExtensions⟩

/-- A disk with one source file below `/r`, which requires the macros of its own module. -/
def selfRequiring : World where
  disk :=
    ⟨⟨[(["r".toList], .directory),
      (["r".toList, "a.clj".toList], .file (.text "(ns a (:require-macros a))".toList))],
      by decide⟩,
      .ofLocation []⟩
  locked := []
  events := []

/-- The rename of that file. -/
def selfRequiringRenamed : Except Failure (List Text) × World :=
  (oneRoot.rename (some "/r/a.clj".toList) (some "/r/b.clj".toList)).run selfRequiring

/-- A file that requires its own module is at both paths after it has been renamed. -/
theorem selfRequiring_at_both_paths :
    selfRequiringRenamed.1 = .ok ["/r/a.clj".toList, "/r/b.clj".toList] ∧
      selfRequiringRenamed.2.disk.isFile "/r/b.clj".toList = true ∧
      selfRequiringRenamed.2.disk.isFile "/r/a.clj".toList = true := by
  decide +kernel

/-- This file depends on its own module, so that its new text is written to the old path after the
move, and a file is there again. -/
theorem rename_moves_selfRequiring :
    selfRequiringRenamed.2.disk.isFile "/r/b.clj".toList = true ∧
      ∃ dependents,
        ((oneRoot.dependentFiles "/r/a.clj".toList).run selfRequiring).1 = .ok dependents ∧
          (selfRequiringRenamed.2.disk.isFile "/r/a.clj".toList = true ↔
            ∃ path ∈ dependents, selfRequiringRenamed.2.disk.locate path =
              selfRequiringRenamed.2.disk.locate "/r/a.clj".toList) := by
  have oldNormal :
      selfRequiring.disk.normalize "/r/a.clj".toList = .ok "/r/a.clj".toList := by decide +kernel
  have newNormal :
      selfRequiring.disk.normalize "/r/b.clj".toList = .ok "/r/b.clj".toList := by decide +kernel
  have renamed : selfRequiringRenamed.1 = .ok ["/r/a.clj".toList, "/r/b.clj".toList] := by
    decide +kernel
  have run : selfRequiringRenamed =
      (.ok ["/r/a.clj".toList, "/r/b.clj".toList], selfRequiringRenamed.2) := by
    rw [← renamed]
  have file : selfRequiring.disk.isFile "/r/a.clj".toList = true := by decide +kernel
  have absent : selfRequiring.disk.pathExists "/r/b.clj".toList = false := by decide +kernel
  have direct : Path.isDirect "/r/b.clj".toList = true := by decide
  exact rename_moves oldNormal newNormal file absent direct run

end Relocate.Project
