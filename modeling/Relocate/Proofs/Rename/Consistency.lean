import Relocate.Proofs.Declaration.OwnName
import Relocate.Proofs.Declaration.Rewriting
import Relocate.Proofs.Rename.Moves
import Relocate.Proofs.SourceFiles

/-!
# Renaming a file keeps the other files consistent

After a file has been renamed, every other source file below the roots declares what it declared
before, and depends on what it depended on before with the renamed module under its new name:
`rename_consistent`. So no other file depends on the old name. The renamed file itself may: it gets
its new name by text, and if that does not hit its declaration, another declaration may come to the
fore that refers to the old name.

The disk after the rename is related to the one before by `Renamed`, location by location. All else
follows from this relation, and from the two disks being scanned by the same roots.
-/
namespace Relocate

/-- The disk after a file has been renamed, with the files that depend on its module. -/
structure Renamed (before after : Disk) (dependents : List Text) (old new : Location)
    (module newModule text : Text) : Prop where
  named : after.FilesNamed
  located : ∃ place, after.locate new.path = .ok place
  free : before.tree.fileAt new = none
  gone : after.tree.fileAt old = none
  there : after.tree.fileAt new = some (.text (Text.replaceFirst module newModule text))
  updated : ∀ location : Location, location.Named → location.path ∈ dependents →
    ∃ earlier later, before.tree.fileAt location = some (.text earlier) ∧
      renameInText module newModule earlier = .ok later ∧
      after.tree.fileAt location = some (.text later)
  kept : ∀ location : Location, location ≠ old → location ≠ new → location.path ∉ dependents →
    after.tree.fileAt location = before.tree.fileAt location

namespace Project

open Action

section Renaming

variable {project : Project} {world after : World} {old new : Location} {place : Place}
  {module text : Text} {written : List Text} {graph : ModuleGraph}

/-- The top is always there. -/
theorem below_of_not_exists {disk : Disk} (absent : disk.pathExists new.path = false) :
    new ≠ [] := by
  rintro rfl
  have top : disk.find (Location.path []) = .ok (.ofLocation [], .directory) := rfl
  simp [Disk.pathExists, top, Except.isOk, Except.toBool] at absent

/-- Which files there are after a file with a module has been renamed, if its path and those of its
dependents are paths of locations. Such a path leads to its location and nowhere else. -/
theorem renameFile_locations {new : Text} (oldNamed : old.Named)
    (found : world.disk.find old.path = .ok (place, .file (.text text)))
    (declared : ((project.declaredModule old.path).run world).1 = .ok (some module))
    (built : (project.graph.run world).1 = .ok graph)
    (dependents : ∀ path ∈ graph.dependentsOf module,
      ∃ location : Location, location.Named ∧ path = location.path)
    (run : (project.renameFile old.path new).run world = (.ok written, after)) :
    ∃ newModule, ((project.resolve new).run world).1 = .ok newModule ∧
      (∃ content, after.disk.find new =
        .ok (.ofLocation (world.disk.destination new), .file content)) ∧
      ∀ location : Location,
        (location.Named ∧ location.path ∈ graph.dependentsOf module ∧ ∃ earlier later,
          world.disk.tree.fileAt location = some (.text earlier) ∧
          renameInText module newModule earlier = .ok later ∧
          after.disk.tree.fileAt location = some (.text later)) ∨
        ((location.Named → location.path ∉ graph.dependentsOf module) ∧
          after.disk.tree.fileAt location =
            if location = world.disk.destination new then
              some (.text (Text.replaceFirst module newModule text))
            else if location = old then none else world.disk.tree.fileAt location) := by
  obtain ⟨newModule, other, resolved, same, there, -, files⟩ :=
    renameFile_files found declared run
  obtain rfl := Except.ok.inj (built.symm.trans same)
  refine ⟨newModule, resolved, there, fun location => ?_⟩
  have source : place.location = old := by
    simp [location_of_find rfl found, oldNamed]
  obtain ⟨path, member, earlier, later, leads, read, worked, held⟩ | ⟨others, held⟩ :=
    files location
  · obtain ⟨other, otherNamed, rfl⟩ := dependents path member
    rw [destination_path otherNamed] at leads
    subst leads
    obtain ⟨spot, found⟩ := Disk.find_of_read read
    exact .inl ⟨otherNamed, member, earlier, later, fileAt_of_find otherNamed found, worked, held⟩
  · rw [source] at held
    refine .inr ⟨fun locationNamed member => ?_, held⟩
    exact others _ member (destination_path locationNamed)

/-- The rename of a file that is none of its own dependents relates the two disks, if all paths in
play are those of locations. -/
theorem renamed_of_renameFile (named : world.disk.FilesNamed) (oldNamed : old.Named)
    (newNamed : new.Named) (found : world.disk.find old.path = .ok (place, .file (.text text)))
    (absent : world.disk.pathExists new.path = false)
    (declared : ((project.declaredModule old.path).run world).1 = .ok (some module))
    (built : (project.graph.run world).1 = .ok graph)
    (dependents : ∀ path ∈ graph.dependentsOf module,
      ∃ location : Location, location.Named ∧ path = location.path)
    (foreign : old.path ∉ graph.dependentsOf module)
    (run : (project.renameFile old.path new.path).run world = (.ok written, after)) :
    ∃ newModule, ((project.resolve new.path).run world).1 = .ok newModule ∧
      Renamed world.disk after.disk (graph.dependentsOf module) old new module newModule text := by
  obtain ⟨newModule, resolved, ⟨content, there⟩, files⟩ :=
    renameFile_locations oldNamed found declared built dependents run
  have located := (Disk.find_file_iff.mp there).1
  have below := below_of_not_exists absent
  have direct := isDirect_path newNamed below
  have target : world.disk.destination new.path = new := by
    rw [Disk.destination_absolute _ rfl, destination_path newNamed]
  have free : world.disk.tree.fileAt new = none := by
    have nothing := free_of_not_exists direct located absent
    rw [destination_path newNamed] at nothing
    simp [FileTree.fileAt, nothing]
  have apart : old ≠ new := by
    rintro rfl
    simp [fileAt_of_find oldNamed found] at free
  rw [target] at files
  refine ⟨newModule, resolved, ?_, ⟨_, located⟩, free, ?_, ?_, ?_, ?_⟩
  · intro location content held
    obtain ⟨locationNamed, -⟩ | ⟨-, kept⟩ := files location
    · exact locationNamed
    · rw [kept] at held
      split at held
      · rename_i same
        exact same ▸ newNamed
      · split at held
        · simp at held
        · exact named location content held
  · obtain ⟨-, member, -⟩ | ⟨-, kept⟩ := files old
    · exact absurd member foreign
    · rw [kept, if_neg apart, if_pos rfl]
  · obtain ⟨-, -, earlier, later, held, -⟩ | ⟨-, kept⟩ := files new
    · simp [free] at held
    · rw [kept, if_pos rfl]
  · intro location locationNamed member
    obtain ⟨-, -, followed⟩ | ⟨missing, -⟩ := files location
    · exact followed
    · exact absurd member (missing locationNamed)
  · intro location notOld notNew noDependent
    obtain ⟨-, member, -⟩ | ⟨-, kept⟩ := files location
    · exact absurd member noDependent
    · rw [kept, if_neg notNew, if_neg notOld]

end Renaming

end Project

/-- The declaration of the text can be written and read back: its tags stand close to what they may
be written to, and the imported classes are dotted. -/
def isRegular (text : Text) : Bool :=
  (declarationForm? text).all Form.tagsApply &&
    match Declaration.parse text with
    | .ok declaration => declaration.classes.all isDotted
    | .error _ => true

/-- The declaration of a regular text can be written. -/
theorem sound_of_isRegular {text : Text} {declaration : Declaration}
    (parsed : Declaration.parse text = .ok declaration) (regular : isRegular text = true) :
    declaration.Sound := by
  simp only [isRegular, parsed, Bool.and_eq_true, List.all_eq_true] at regular
  obtain ⟨file, found, rfl⟩ := sourceFile_of_parse parsed
  refine sound_of_sourceFile_parse found (fun form member => ?_) regular.2
  have all := regular.1
  rw [Option.mem_def.mp member] at all
  exact all

section Following

variable {before after : Disk} {dependents : List Text} {old new location : Location}
  {module newModule text : Text} {declaration : Declaration}

/-- What leaves each of the dependencies as it is leaves their set as it is. -/
theorem dependencies_of_fixed {replaced : Text → Text}
    (fixed : ∀ target ∈ declaration.dependencies, replaced target = target) :
    Text.sortedSet (declaration.dependencies.map replaced) = declaration.dependencies := by
  rw [List.map_congr_left fixed, List.map_id', Declaration.dependencies, Text.sortedSet_eq_iff]
  exact fun target => Text.mem_sortedSet

/-- Where a module is not among the dependencies, renaming it changes none of them. -/
theorem dependencies_of_not_mem (absent : module ∉ declaration.dependencies) :
    Text.sortedSet (declaration.dependencies.map (renamedTarget module newModule)) =
      declaration.dependencies := by
  refine dependencies_of_fixed fun target member => ?_
  rw [renamedTarget, if_neg]
  rintro rfl
  exact absent member

/-- A module that is renamed is no dependency afterwards. -/
theorem not_mem_renamed (differs : module ≠ newModule) (targets : List Text) :
    module ∉ Text.sortedSet (targets.map (renamedTarget module newModule)) := by
  intro member
  rw [Text.mem_sortedSet, List.mem_map] at member
  obtain ⟨target, -, same⟩ := member
  rw [renamedTarget] at same
  split at same
  · exact differs same.symm
  · rename_i other
    exact other same

/-- A file other than the renamed one has its declaration afterwards, with the module renamed. By
cases on whether the file has been written: if so, its new text is that of the renamed declaration,
and if not, it does not refer to the module. -/
theorem Renamed.declarationAt
    (renamed : Renamed before after dependents old new module newModule text)
    (named : location.Named) (apart : location ≠ old)
    (declared : before.declarationAt location.path = some declaration)
    (dependent : location.path ∈ dependents ↔ module ∈ declaration.dependencies)
    (regular : ∀ held, before.read location.path = .ok (.text held) →
      location.path ∈ dependents → isRegular held = true)
    (dotted : isDotted newModule = true) :
    ∃ later, after.declarationAt location.path = some later ∧
      later.module = declaration.module ∧
      later.dependencies =
        Text.sortedSet (declaration.dependencies.map (renamedTarget module newModule)) := by
  obtain ⟨held, read, parsed⟩ := declarationAt_eq_some_iff.mp declared
  obtain ⟨place, found⟩ := Disk.find_of_read read
  have located := (Disk.find_file_iff.mp found).1
  have file := (read_path named located).mp read
  have readAfter (content : Content) : after.read location.path = .ok content ↔
      after.tree.fileAt location = some content :=
    read_path named located
  by_cases refers : location.path ∈ dependents
  · obtain ⟨earlier, later, fileBefore, worked, fileAfter⟩ := renamed.updated location named refers
    obtain rfl := Content.text.inj (Option.some.inj (fileBefore.symm.trans file))
    obtain ⟨other, parsedAfter, -, sameModule, dependencies⟩ := sound_of_renameInText parsed
      (sound_of_isRegular parsed (regular _ read refers)) dotted worked
    exact ⟨other, declarationAt_eq_some_iff.mpr ⟨later, (readAfter _).mpr fileAfter, parsedAfter⟩,
      sameModule, dependencies⟩
  · have notNew : location ≠ new := by
      rintro rfl
      simp [renamed.free] at file
    have kept := renamed.kept location apart notNew refers
    rw [file] at kept
    refine ⟨declaration, declarationAt_eq_some_iff.mpr ⟨held, (readAfter _).mpr kept, parsed⟩,
      rfl, ?_⟩
    rw [dependencies_of_not_mem fun member => refers (dependent.mpr member)]

/-- A source file after the rename is the renamed one or was a source file before. Besides the
renamed file, only files that were there have been written. -/
theorem Renamed.sourceAt {extensions : List Text} {roots : List Location}
    (renamed : Renamed before after dependents old new module newModule text)
    (rootsNamed : ∀ root ∈ roots, Location.Named root)
    (source : after.SourceAt extensions roots location) :
    location = new ∨ location ≠ old ∧ before.SourceAt extensions roots location := by
  obtain ⟨content, file⟩ := source.file
  by_cases isNew : location = new
  · exact .inl isNew
  · have notOld : location ≠ old := by
      rintro rfl
      simp [renamed.gone] at file
    have earlier : ∃ content, before.tree.fileAt location = some content := by
      by_cases refers : location.path ∈ dependents
      · obtain ⟨held, -, fileBefore, -⟩ :=
          renamed.updated location (renamed.named location content file) refers
        exact ⟨_, fileBefore⟩
      · exact ⟨content, (renamed.kept location notOld isNew refers).symm.trans file⟩
    obtain ⟨held, fileBefore⟩ := earlier
    exact .inr ⟨notOld, source.of_file rootsNamed fileBefore⟩

end Following

/-- No fixed root has a name in it that is too long to be looked for. -/
def SourceRoots.fits : SourceRoots → Bool
  | .fixed roots => roots.all fun root =>
    (Disk.steps root).all fun name => Utf8.size name ≤ longestName
  | .project _ _ => true

section Graphs

variable {project : Project} {world after : World} {graph later : ModuleGraph}
  {roots : List Location} {old new : Location} {module newModule text path : Text}

open Action

/-- The files that depend on a module below roots that are paths of locations. The scan meets the
source files below the roots by the paths of their locations. -/
theorem mem_dependentsOf_iff (named : world.disk.FilesNamed)
    (rootsNamed : ∀ root ∈ roots, Location.Named root)
    (fixed : project.roots = .fixed (roots.map Location.path))
    (built : (project.graph.run world).1 = .ok graph) :
    path ∈ graph.dependentsOf module ↔ ∃ location, path = Location.path location ∧
      world.disk.SourceAt project.extensions roots location ∧
      ∃ declaration, world.disk.declarationAt path = some declaration ∧
        module ∈ declaration.dependencies := by
  have listed : (project.roots.list.run world).1 = .ok (roots.map Location.path) := by
    rw [fixed]
    rfl
  obtain ⟨others, same, noStop, -, -⟩ := graph_ok_iff.mp built
  obtain rfl := Except.ok.inj (listed.symm.trans same)
  rw [mem_dependentsOf_graph listed built, mem_scan_iff named rootsNamed noStop]
  constructor
  · rintro ⟨⟨location, path, source⟩, declared⟩
    exact ⟨location, path, source, declared⟩
  · rintro ⟨location, path, source, declared⟩
    exact ⟨⟨location, path, source⟩, declared⟩

/-- After a rename the graph can be built, unless a name in a root is too long. The roots can be
looked for as before, and every source file is the renamed one, which has just been written, or
could be read before. -/
theorem Renamed.graph_built
    (renamed : Renamed world.disk after.disk (graph.dependentsOf module) old new module newModule
      text)
    (named : world.disk.FilesNamed) (rootsNamed : ∀ root ∈ roots, Location.Named root)
    (fixed : project.roots = .fixed (roots.map Location.path)) (fits : project.roots.fits = true)
    (built : (project.graph.run world).1 = .ok graph) :
    ∃ later, (project.graph.run after).1 = .ok later := by
  have listed (world : World) : (project.roots.list.run world).1 =
      .ok (roots.map Location.path) := by
    rw [fixed]
    rfl
  obtain ⟨others, same, noStop, readable, -⟩ := graph_ok_iff.mp built
  obtain rfl := Except.ok.inj ((listed world).symm.trans same)
  have noStopAfter : ∀ error, .stop error ∉
      scan after.disk project.extensions [] (roots.map Location.path) := by
    intro error stops
    obtain ⟨path, member, failed⟩ := root_of_stop stops
    obtain ⟨root, inside, rfl⟩ := List.mem_map.mp member
    obtain always | ⟨name, step, long⟩ := Disk.long_of_look failed
    · exact not_error_of_noStop member noStop error (always world.disk)
    · rw [tidy_path (rootsNamed root inside)] at step
      simp only [fixed, SourceRoots.fits, List.all_eq_true, decide_eq_true_eq] at fits
      have short := fits _ member name step
      omega
  refine ⟨_, graph_ok_iff.mpr ⟨_, listed after, noStopAfter, fun path met => ?_, rfl⟩⟩
  obtain ⟨location, rfl, source⟩ :=
    (mem_scan_iff renamed.named rootsNamed noStopAfter).mp met
  obtain ⟨content, file⟩ := source.file
  have locationNamed := renamed.named location content file
  refine ⟨content, run_readContent_of_read ?_⟩
  obtain rfl | ⟨-, sourceBefore⟩ := renamed.sourceAt rootsNamed source
  · obtain ⟨place, located⟩ := renamed.located
    exact (read_path locationNamed located).mpr file
  · have metBefore := (mem_scan_iff named rootsNamed noStop).mpr
      ⟨location, rfl, sourceBefore⟩
    obtain ⟨held, read⟩ := readable _ metBefore
    obtain ⟨place, found⟩ := Disk.find_of_read (run_readContent_ok read)
    exact (read_path locationNamed (Disk.find_file_iff.mp found).1).mpr file

/-- After a rename no file but the renamed one can depend on the old name. -/
theorem Renamed.path_of_dependent
    (renamed : Renamed world.disk after.disk (graph.dependentsOf module) old new module newModule
      text)
    (named : world.disk.FilesNamed) (rootsNamed : ∀ root ∈ roots, Location.Named root)
    (fixed : project.roots = .fixed (roots.map Location.path))
    (built : (project.graph.run world).1 = .ok graph)
    (builtAfter : (project.graph.run after).1 = .ok later)
    (regular : ∀ path ∈ graph.dependentsOf module, ∀ held,
      world.disk.read path = .ok (.text held) → isRegular held = true)
    (dotted : isDotted newModule = true) (differs : module ≠ newModule)
    (dependent : path ∈ later.dependentsOf module) : path = new.path := by
  obtain ⟨location, rfl, source, declaration, declared, refers⟩ :=
    (mem_dependentsOf_iff renamed.named rootsNamed fixed builtAfter).mp dependent
  by_cases isNew : location = new
  · rw [isNew]
  obtain same | ⟨notOld, sourceBefore⟩ := renamed.sourceAt rootsNamed source
  · exact absurd same isNew
  obtain ⟨content, file⟩ := source.file
  have locationNamed := renamed.named location content file
  have before : location.path ∈ graph.dependentsOf module ↔ _ :=
    mem_dependentsOf_iff named rootsNamed fixed built
  by_cases member : location.path ∈ graph.dependentsOf module
  · -- What referred to the old name before refers to the new one.
    obtain ⟨other, -, -, earlier, declaredBefore, refersBefore⟩ := before.mp member
    obtain ⟨found, declaredAfter, -, dependencies⟩ :=
      renamed.declarationAt locationNamed notOld declaredBefore
        ⟨fun _ => refersBefore, fun _ => member⟩ (fun held read _ => regular _ member held read)
        dotted
    obtain rfl := Option.some.inj (declaredAfter.symm.trans declared)
    rw [dependencies] at refers
    exact absurd refers (not_mem_renamed differs _)
  · -- What has not been written declares what it declared before.
    obtain ⟨held, read, parsed⟩ := declarationAt_eq_some_iff.mp declared
    obtain ⟨place, found⟩ := Disk.find_of_read read
    have located := (Disk.find_file_iff.mp found).1
    have fileAfter := (read_path locationNamed located).mp read
    rw [renamed.kept location notOld isNew member] at fileAfter
    have readBefore := (read_path locationNamed located).mpr fileAfter
    have declaredBefore := declarationAt_eq_some_iff.mpr ⟨held, readBefore, parsed⟩
    exact absurd (before.mpr ⟨location, rfl, sourceBefore, declaration, declaredBefore, refers⟩)
      member

end Graphs

/-- No path that a scan meets holds a backslash or starts with two slashes: neither those that the
source roots were made of, nor any on the disk. -/
structure Project.OrdinaryTree (project : Project) (disk : Disk) : Prop where
  roots : ∃ (base : Location) (paths : List Text), base.Named ∧
    (∀ path ∈ paths, Path.isOrdinary path = true) ∧ project.roots = .ofPaths base.path paths
  names : ∀ entry ∈ disk.tree.entries, Location.Named entry.1

/-- No path in play holds a backslash or starts with two slashes: neither those that a scan meets,
nor the two arguments of a rename, nor the path of the current directory, where they may start. -/
structure Project.OrdinaryPaths (project : Project) (disk : Disk) (old new : Text) : Prop extends
    project.OrdinaryTree disk where
  old : Path.isOrdinary old = true
  new : Path.isOrdinary new = true
  cwd : disk.cwd.location.Named

namespace Project

variable {project : Project} {disk : Disk} {old new path normal : Text}

/-- The roots are paths of locations. -/
theorem OrdinaryTree.exists_roots (ordinary : project.OrdinaryTree disk) :
    ∃ roots : List Location, (∀ root ∈ roots, root.Named) ∧
      project.roots = .fixed (roots.map Location.path) := by
  obtain ⟨base, paths, baseNamed, plain, made⟩ := ordinary.roots
  have canonical : ∀ root ∈ Text.distinct (paths.map (Path.normalize base.path)),
      ∃ location : Location, location.Named ∧ root = location.path := by
    intro root member
    obtain ⟨path, inside, rfl⟩ := List.mem_map.mp (Text.mem_distinct.mp member)
    exact exists_normalize baseNamed (plain path inside)
  rw [made, SourceRoots.ofPaths]
  generalize Text.distinct (paths.map (Path.normalize base.path)) = listed at canonical
  induction listed with
  | nil => exact ⟨[], by simp, rfl⟩
  | cons root listed inductionHypothesis =>
    obtain ⟨location, named, rfl⟩ := canonical root (by simp)
    obtain ⟨roots, rootsNamed, same⟩ := inductionHypothesis fun other member =>
      canonical other (List.mem_cons_of_mem _ member)
    refine ⟨location :: roots, ?_, ?_⟩
    · intro other member
      obtain rfl | later := List.mem_cons.mp member
      · exact named
      · exact rootsNamed other later
    · rw [SourceRoots.fixed.inj same, List.map_cons]

/-- The roots that are listed are the paths of these locations. -/
theorem OrdinaryTree.exists_listed {world : World} {roots : List Text}
    (ordinary : project.OrdinaryTree disk)
    (listed : (project.roots.list.run world).1 = .ok roots) :
    ∃ locations : List Location, (∀ root ∈ locations, root.Named) ∧
      project.roots = .fixed (locations.map Location.path) ∧
      roots = locations.map Location.path := by
  obtain ⟨locations, named, fixed⟩ := ordinary.exists_roots
  rw [fixed] at listed
  exact ⟨locations, named, fixed, (Except.ok.inj listed).symm⟩

/-- All files are at locations of names. -/
theorem OrdinaryTree.filesNamed (ordinary : project.OrdinaryTree disk) : disk.FilesNamed := by
  intro location content file
  exact ordinary.names _ (FileTree.mem_entries_of_file (FileTree.fileAt_eq_some_iff.mp file))

/-- An argument is normalized to the path of a location. By cases on where the path starts: at the
top, or in the current directory. -/
theorem OrdinaryPaths.exists_location (ordinary : project.OrdinaryPaths disk old new)
    (plain : Path.isOrdinary path = true) (normalized : disk.normalize path = .ok normal) :
    ∃ location : Location, location.Named ∧ normal = location.path := by
  have top : Location.Named [] := fun _ member => by simp at member
  have start : ∀ text, disk.startOf path = .ok text →
      ∃ base : Location, base.Named ∧ text = base.path := by
    intro text started
    unfold Disk.startOf at started
    split at started
    · exact ⟨[], top, (Except.ok.inj started).symm⟩
    · unfold Disk.currentPath at started
      split at started
      · exact ⟨disk.cwd.location, ordinary.cwd, (Except.ok.inj started).symm⟩
      · simp at started
  unfold Disk.normalize at normalized
  cases started : disk.startOf path with
  | error error => simp [started, Except.map] at normalized
  | ok text =>
    obtain ⟨base, named, rfl⟩ := start text started
    rw [started] at normalized
    rw [← Except.ok.inj normalized]
    exact exists_normalize named plain

open Action

/-- A successful rename of a source file relates the two disks. The file does not refer to itself,
so that it is not among its dependents and is written but once. -/
theorem renamed_of_rename {project : Project} {world after : World} {oldPlace newPlace : Location}
    {roots : List Location} {old new text : Text} {declaration : Declaration} {listed : List Text}
    (named : world.disk.FilesNamed) (oldNamed : oldPlace.Named) (newNamed : newPlace.Named)
    (rootsNamed : ∀ root ∈ roots, Location.Named root)
    (fixed : project.roots = .fixed (roots.map Location.path))
    (oldNormal : world.disk.normalize old = .ok oldPlace.path)
    (newNormal : world.disk.normalize new = .ok newPlace.path)
    (source : isSource project.extensions oldPlace.path = true)
    (read : world.disk.read oldPlace.path = .ok (.text text))
    (parsed : Declaration.parse text = .ok declaration)
    (absent : world.disk.pathExists newPlace.path = false)
    (foreign : declaration.module ∉ declaration.dependencies)
    (run : (project.rename (some old) (some new)).run world = (.ok listed, after)) :
    ∃ newModule graph, ((project.resolve newPlace.path).run world).1 = .ok newModule ∧
      (project.graph.run world).1 = .ok graph ∧
      ((project.dependentFiles oldPlace.path).run world).1 =
        .ok (graph.dependentsOf declaration.module) ∧
      Renamed world.disk after.disk (graph.dependentsOf declaration.module) oldPlace newPlace
        declaration.module newModule text := by
  obtain ⟨place, found⟩ := Disk.find_of_read read
  have file : world.disk.isFile oldPlace.path = true := by simp [Disk.isFile, found]
  obtain ⟨start, finished, written, startDisk, finishedDisk, run⟩ :=
    rename_file oldNormal newNormal file run
  obtain ⟨given, middle, declared, -, -⟩ :=
    (reads_declaredModule project oldPlace.path).run_bind_ok startDisk run
  obtain rfl := declaredModule_of_read source read parsed declared
  have declaredAtStart :=
    ((reads_declaredModule project oldPlace.path).value world start startDisk).trans declared
  rw [← startDisk] at named found absent
  obtain ⟨-, graph, -, built, -⟩ := renameFile_files found declaredAtStart run
  have depends (path : Text) : path ∈ graph.dependentsOf declaration.module ↔ _ :=
    mem_dependentsOf_iff named rootsNamed fixed built
  have notOwn : oldPlace.path ∉ graph.dependentsOf declaration.module := by
    intro member
    obtain ⟨-, -, -, other, declaredOther, refers⟩ := (depends _).mp member
    obtain ⟨held, heldRead, heldParsed⟩ := declarationAt_eq_some_iff.mp declaredOther
    rw [startDisk, read] at heldRead
    obtain rfl := Content.text.inj (Except.ok.inj heldRead)
    obtain rfl := Except.ok.inj (parsed.symm.trans heldParsed)
    exact foreign refers
  have canonical : ∀ path ∈ graph.dependentsOf declaration.module,
      ∃ location : Location, location.Named ∧ path = location.path := by
    intro path member
    obtain ⟨location, same, sourceAt, -⟩ := (depends path).mp member
    obtain ⟨content, held⟩ := sourceAt.file
    exact ⟨location, named location content held, same⟩
  obtain ⟨newModule, resolved, renamed⟩ := renamed_of_renameFile named oldNamed newNamed
    found absent declaredAtStart built canonical notOwn run
  rw [(reads_resolve project _).value world start startDisk] at resolved
  rw [(reads_graph project).value world start startDisk] at built
  rw [startDisk, ← finishedDisk] at renamed
  exact ⟨newModule, graph, resolved, built, dependentFiles_some declared built, renamed⟩

/-- After a file has been renamed, every other source file declares the module that it declared
before, and its dependencies are those from before with the renamed module under its new name. So no
other file depends on the old name; the renamed one does not either, if its old name does not occur
in front of the place where it is declared. The disk before and after the rename differ by what
`Renamed` says, so that a file can be followed from one to the other, and the graph is built from
both in the same way. -/
theorem rename_consistent {project : Project} {world after : World}
    {old new oldPath newPath text newModule : Text} {declaration : Declaration}
    {files dependents listed : List Text} (ordinary : project.OrdinaryPaths world.disk old new)
    (oldNormal : world.disk.normalize old = .ok oldPath)
    (newNormal : world.disk.normalize new = .ok newPath)
    (source : isSource project.extensions oldPath = true)
    (read : world.disk.read oldPath = .ok (.text text))
    (parsed : Declaration.parse text = .ok declaration)
    (absent : world.disk.pathExists newPath = false)
    (foreign : declaration.module ∉ declaration.dependencies)
    (resolved : ((project.resolve newPath).run world).1 = .ok newModule)
    (dotted : isDotted newModule = true)
    (dependent : ((project.dependentFiles oldPath).run world).1 = .ok dependents)
    (regular : ∀ path ∈ dependents, ∀ held, world.disk.read path = .ok (.text held) →
      isRegular held = true)
    (sources : (project.sourceFiles.run world).1 = .ok files)
    (run : (project.rename (some old) (some new)).run world = (.ok listed, after)) :
    (∀ path ∈ files, path ≠ oldPath → ∀ earlier, world.disk.declarationAt path = some earlier →
      ∃ later, after.disk.declarationAt path = some later ∧ later.module = earlier.module ∧
        later.dependencies =
          Text.sortedSet (earlier.dependencies.map (renamedTarget declaration.module newModule))) ∧
    (declaration.module ≠ newModule → project.roots.fits = true →
      ∃ graph, (project.graph.run after).1 = .ok graph ∧
        (∀ path ∈ graph.dependentsOf declaration.module, path = newPath) ∧
        ((∀ offset ∈ nameOffset? text, occursBefore declaration.module offset text = false) →
          graph.dependentsOf declaration.module = [])) := by
  obtain ⟨oldPlace, oldNamed, rfl⟩ := ordinary.exists_location ordinary.old oldNormal
  obtain ⟨newPlace, newNamed, rfl⟩ := ordinary.exists_location ordinary.new newNormal
  obtain ⟨roots, rootsNamed, fixed⟩ := ordinary.exists_roots
  have named := ordinary.filesNamed
  obtain ⟨module, graph, sameModule, built, sameDependents, renamed⟩ :=
    renamed_of_rename named oldNamed newNamed rootsNamed fixed oldNormal newNormal source
      read parsed absent foreign run
  obtain rfl := Except.ok.inj (resolved.symm.trans sameModule)
  obtain rfl := Except.ok.inj (sameDependents.symm.trans dependent)
  constructor
  · intro path member apart earlier declared
    have fixedList : (project.roots.list.run world).1 = .ok (roots.map Location.path) := by
      rw [fixed]
      rfl
    have met := (mem_sourceFiles fixedList sources).mp member
    obtain ⟨others, same, noStop, -, -⟩ := graph_ok_iff.mp built
    obtain rfl := Except.ok.inj (fixedList.symm.trans same)
    obtain ⟨location, rfl, sourceAt⟩ :=
      (mem_scan_iff named rootsNamed noStop).mp met
    obtain ⟨content, held⟩ := sourceAt.file
    have refers : location.path ∈ graph.dependentsOf declaration.module ↔
        declaration.module ∈ earlier.dependencies := by
      rw [mem_dependentsOf_graph fixedList built]
      constructor
      · rintro ⟨-, other, declaredOther, refers⟩
        rwa [Option.some.inj (declared.symm.trans declaredOther)]
      · intro refers
        exact ⟨met, earlier, declared, refers⟩
    refine renamed.declarationAt (named location content held) ?_ declared refers ?_
      dotted
    · rintro rfl
      exact apart rfl
    · intro held heldRead inside
      exact regular _ inside held heldRead
  · intro differs fits
    obtain ⟨later, builtAfter⟩ :=
      renamed.graph_built named rootsNamed fixed fits built
    have only : ∀ path ∈ later.dependentsOf declaration.module, path = newPlace.path :=
      fun path member => renamed.path_of_dependent named rootsNamed fixed built
        builtAfter regular dotted differs member
    refine ⟨later, builtAfter, only, fun first => ?_⟩
    apply List.eq_nil_iff_forall_not_mem.mpr
    intro path member
    obtain rfl := only path member
    obtain ⟨-, -, -, other, declaredOther, refers⟩ :=
      (mem_dependentsOf_iff renamed.named rootsNamed fixed builtAfter).mp member
    obtain ⟨place, located⟩ := renamed.located
    have readAfter :=
      (read_path newNamed located).mpr renamed.there
    have declaredAfter := declarationAt_eq_some_iff.mpr
      ⟨_, readAfter, parse_replaceFirst parsed (readsAsSymbol_of_isDotted dotted) first⟩
    obtain rfl := Option.some.inj (declaredAfter.symm.trans declaredOther)
    exact foreign refers

/-- A disk with a source file whose module has the name that heads declarations. The file has a
second declaration, which refers to that module. -/
def headNamed : World where
  disk :=
    ⟨⟨[(["r".toList], .directory),
      (["r".toList, "ns.clj".toList], .file (.text "(ns ns) (ns y (:require ns))".toList))],
      by decide⟩,
      .ofLocation []⟩
  locked := []
  events := []

/-- The rename of that file. -/
def headNamedRenamed : Except Failure (List Text) × World :=
  (oneRoot.rename (some "/r/ns.clj".toList) (some "/r/foo.clj".toList)).run headNamed

/-- The new name takes the place of the head, the second declaration becomes the first one, and the
renamed file depends on the old name, though it did not before. -/
theorem headNamed_depends_on_old :
    headNamedRenamed.1 = .ok ["/r/foo.clj".toList] ∧
      ((oneRoot.resolve "/r/foo.clj".toList).run headNamed).1 = .ok "foo".toList ∧
      ((oneRoot.dependentFiles "/r/ns.clj".toList).run headNamed).1 = .ok [] ∧
      headNamedRenamed.2.disk.read "/r/foo.clj".toList =
        .ok (.text "(foo ns) (ns y (:require ns))".toList) ∧
      (oneRoot.graph.run headNamedRenamed.2).1.map (fun graph => graph.dependentsOf "ns".toList) =
        .ok ["/r/foo.clj".toList] := by
  decide +kernel

/-- A disk with a source file, one that depends on its module, and one that does not. -/
def required : World where
  disk :=
    ⟨⟨[(["r".toList], .directory),
      (["r".toList, "a.clj".toList], .file (.text "(ns a (:require x))".toList)),
      (["r".toList, "b.clj".toList],
        .file (.text "(ns b (:require [a :as q] y) (:import [a P]))\n(a/f)".toList)),
      (["r".toList, "c.clj".toList], .file (.text "(ns c (:require y))".toList))], by decide⟩,
      .ofLocation []⟩
  locked := []
  events := []

/-- The rename of the first one to a path that starts from the current directory. -/
def requiredRenamed : Except Failure (List Text) × World :=
  (oneRoot.rename (some "/r/a.clj".toList) (some "r/d/e_f.clj".toList)).run required

/-- After this rename the dependent file asks for the module by its new name, and nothing asks for
the old one. -/
theorem rename_consistent_required :
    (∃ later, requiredRenamed.2.disk.declarationAt "/r/b.clj".toList = some later ∧
      later.module = "b".toList ∧ later.dependencies = ["d.e-f".toList, "y".toList]) ∧
    ∃ graph, (oneRoot.graph.run requiredRenamed.2).1 = .ok graph ∧
      graph.dependentsOf "a".toList = [] := by
  have ordinary : oneRoot.OrdinaryPaths required.disk "/r/a.clj".toList "r/d/e_f.clj".toList :=
    ⟨⟨⟨[], ["/r".toList], by decide, by decide, rfl⟩, by decide⟩, by decide, by decide, by decide⟩
  have parsed : Declaration.parse "(ns a (:require x))".toList = .ok ⟨"a".toList, [], [],
      [.references "require".toList [.requirement (.plain "x".toList true)]]⟩ := by
    decide +kernel
  have dependent : ((oneRoot.dependentFiles "/r/a.clj".toList).run required).1 =
      .ok ["/r/b.clj".toList] := by decide +kernel
  have text : required.disk.read "/r/b.clj".toList =
      .ok (.text "(ns b (:require [a :as q] y) (:import [a P]))\n(a/f)".toList) := by
    decide +kernel
  have regular : ∀ path ∈ ["/r/b.clj".toList], ∀ held,
      required.disk.read path = .ok (.text held) → isRegular held = true := by
    intro path member held read
    obtain rfl := List.mem_singleton.mp member
    rw [← Content.text.inj (Except.ok.inj (text.symm.trans read))]
    decide +kernel
  have renamed : requiredRenamed.1 = .ok ["/r/b.clj".toList, "/r/d/e_f.clj".toList] := by
    decide +kernel
  have run : requiredRenamed =
      (.ok ["/r/b.clj".toList, "/r/d/e_f.clj".toList], requiredRenamed.2) := by
    rw [← renamed]
  have oldNormal : required.disk.normalize "/r/a.clj".toList = .ok "/r/a.clj".toList := by
    decide +kernel
  have newNormal : required.disk.normalize "r/d/e_f.clj".toList = .ok "/r/d/e_f.clj".toList := by
    decide +kernel
  have source : isSource oneRoot.extensions "/r/a.clj".toList = true := by decide +kernel
  have read : required.disk.read "/r/a.clj".toList =
      .ok (.text "(ns a (:require x))".toList) := by decide +kernel
  have absent : required.disk.pathExists "/r/d/e_f.clj".toList = false := by decide +kernel
  have resolved : ((oneRoot.resolve "/r/d/e_f.clj".toList).run required).1 =
      .ok "d.e-f".toList := by decide +kernel
  have sources : (oneRoot.sourceFiles.run required).1 =
      .ok ["/r/a.clj".toList, "/r/b.clj".toList, "/r/c.clj".toList] := by decide +kernel
  obtain ⟨follows, free⟩ := rename_consistent ordinary oldNormal newNormal source read parsed absent
    (by decide) resolved (by decide) dependent regular sources run
  constructor
  · have declared : required.disk.declarationAt "/r/b.clj".toList = some ⟨"b".toList, [], [],
        [.references "require".toList
          [.requirement ⟨"a".toList, some "q".toList, none, false, [], false⟩,
            .requirement (.plain "y".toList true)],
          .imports ["a.P".toList] []]⟩ := by decide +kernel
    obtain ⟨later, found, module, dependencies⟩ :=
      follows "/r/b.clj".toList (by decide) (by decide) _ declared
    exact ⟨later, found, module, dependencies.trans (by decide +kernel)⟩
  · obtain ⟨graph, built, -, empty⟩ := free (by decide) (by decide +kernel)
    exact ⟨graph, built, empty (by decide +kernel)⟩

end Project

end Relocate
