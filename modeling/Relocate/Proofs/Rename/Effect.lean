import Relocate.Rename.Directory
import Relocate.Proofs.Scan

/-!
# What the rename of a file does to a disk

Planning only reads. Carrying the plan out moves one file and then writes to it and to the files
that depend on the old module. Directories come and go on the way, but which files there are
afterwards is settled by these changes alone: `renameFile_plain` and `renameFile_module` say it for
a file without and with a module.
-/
namespace Relocate.Project

open Action

section Planning

variable {project : Project} {world : World} {path old new module : Text}

/-- Resolving a path to its module leaves the disk as it is. -/
theorem reads_resolve (project : Project) (path : Text) : Reads (project.resolve path) := by
  refine (asks_startOf path).toReads.bind fun start => ?_
  exact (asks_roots project.roots).toReads.bind fun roots => reads_ofExcept _ _

/-- Whatever a file holds, it declares a module or none. -/
theorem asks_declaredModule (project : Project) (path : Text) :
    Asks (project.declaredModule path) := by
  unfold declaredModule
  split
  · refine (asks_readContent path).bind fun content => ?_
    cases content with
    | binary bytes fault => exact (asks_emit _).bind fun _ => asks_pure _
    | text text =>
      simp only
      split
      · exact asks_pure _
      · exact (asks_emit _).bind fun _ => asks_pure _
  · exact asks_pure _

/-- Asking for the module that a file declares leaves the disk as it is. -/
theorem reads_declaredModule (project : Project) (path : Text) :
    Reads (project.declaredModule path) := (asks_declaredModule project path).toReads

/-- Working out the new text of a file leaves the disk as it is. -/
theorem reads_updatedText (path old new : Text) : Reads (updatedText path old new) := by
  refine (reads_emit _).bind fun _ => ?_
  exact (reads_readText path).bind fun text => reads_ofExcept _ _

/-- Working out the new texts of several files leaves the disk as it is. By induction on the files.
-/
theorem reads_updatedTexts (old new : Text) (paths : List Text) :
    Reads (updatedTexts old new paths) := by
  induction paths with
  | nil => exact reads_pure []
  | cons path paths inductionHypothesis =>
    refine (reads_updatedText path old new).bind fun text => ?_
    exact inductionHypothesis.bind fun others => reads_pure _

/-- The new text of a file is worked out from its text. -/
theorem updatedText_ok {text : Text}
    (worked : ((updatedText path old new).run world).1 = .ok text) :
    ∃ before, world.disk.read path = .ok (.text before) ∧
      renameInText old new before = .ok text := by
  have rest (before : Text) : Reads (ofExcept Failure.declaration (renameInText old new before)) :=
    reads_ofExcept _ _
  rw [updatedText, (reads_emit _).value_bind_ok_iff fun _ => (reads_readText path).bind rest]
    at worked
  obtain ⟨-, -, worked⟩ := worked
  rw [(reads_readText path).value_bind_ok_iff rest] at worked
  obtain ⟨before, read, renamed⟩ := worked
  exact ⟨before, run_readText_ok read, run_ofExcept_ok renamed⟩

/-- The new texts of several files belong to their paths in order. By induction on the paths. -/
theorem updatedTexts_ok {paths : List Text} {texts : List (Text × Text)}
    (worked : ((updatedTexts old new paths).run world).1 = .ok texts) :
    texts.map Prod.fst = paths ∧ ∀ entry ∈ texts, ∃ before,
      world.disk.read entry.1 = .ok (.text before) ∧ renameInText old new before = .ok entry.2 := by
  induction paths generalizing texts with
  | nil =>
    obtain rfl := Except.ok.inj worked
    exact ⟨rfl, by simp⟩
  | cons path paths inductionHypothesis =>
    rw [updatedTexts, (reads_updatedText path old new).value_bind_ok_iff
      fun text => (reads_updatedTexts old new paths).bind fun others => reads_pure _] at worked
    obtain ⟨text, first, worked⟩ := worked
    rw [(reads_updatedTexts old new paths).value_bind_ok_iff fun others => reads_pure _] at worked
    obtain ⟨others, later, same⟩ := worked
    obtain rfl := Except.ok.inj same
    obtain ⟨listed, members⟩ := inductionHypothesis later
    refine ⟨by rw [List.map_cons, listed], fun entry member => ?_⟩
    obtain rfl | member := List.mem_cons.mp member
    · exact updatedText_ok first
    · exact members entry member

/-- The module that a file declares is the one that its text declares. -/
theorem declaredModule_some
    (declared : ((project.declaredModule path).run world).1 = .ok (some module)) :
    isSource project.extensions path = true ∧ ∃ text declaration,
      world.disk.read path = .ok (.text text) ∧ Declaration.parse text = .ok declaration ∧
        declaration.module = module := by
  unfold declaredModule at declared
  split at declared
  · rename_i source
    refine ⟨source, ?_⟩
    obtain ⟨content, middle, read, -, rest⟩ :=
      (asks_readContent path).run_bind_ok rfl (Prod.ext declared rfl)
    have same := congrArg Prod.fst rest
    have held := run_readContent_ok read
    cases content with
    | binary bytes fault =>
      have impossible : none = some module := Except.ok.inj same
      simp at impossible
    | text text =>
      simp only at same
      split at same
      · rename_i declaration parsed
        exact ⟨text, declaration, held, parsed, Option.some.inj (Except.ok.inj same)⟩
      · have impossible : none = some module := Except.ok.inj same
        simp at impossible
  · simp at declared

/-- A source file with a text that declares a module declares this module, if it is read at all. -/
theorem declaredModule_of_read {found : Option Text} {text : Text} {declaration : Declaration}
    (source : isSource project.extensions path = true)
    (read : world.disk.read path = .ok (.text text))
    (parsed : Declaration.parse text = .ok declaration)
    (declared : ((project.declaredModule path).run world).1 = .ok found) :
    found = some declaration.module := by
  rw [declaredModule, if_pos source] at declared
  obtain ⟨content, middle, held, -, rest⟩ :=
    (asks_readContent path).run_bind_ok rfl (Prod.ext declared rfl)
  obtain rfl := Except.ok.inj ((run_readContent_ok held).symm.trans read)
  have same := congrArg Prod.fst rest
  simp only [parsed] at same
  exact (Except.ok.inj same).symm

end Planning

section Moving

variable {project : Project} {world after : World} {old new : Text} {place : Place}
  {content : Content}

/-- Removing directories step by step changes no file. By induction on the bound: each round removes
one empty directory at most. -/
theorem pruned_pruneWith {boundaries : List Text} {bound : Nat} {directory : Text} {value : Unit}
    (run : (pruneWith boundaries bound directory).run world = (.ok value, after)) :
    Disk.Pruned world.disk after.disk := by
  induction bound generalizing world directory with
  | zero =>
    obtain ⟨-, rfl⟩ := Prod.mk.inj run
    exact .refl _
  | succ bound inductionHypothesis =>
    unfold pruneWith at run
    split at run
    · obtain ⟨-, rfl⟩ := Prod.mk.inj run
      exact .refl _
    · obtain ⟨found, first, -, disk, run⟩ := (asks_isDirectory directory).run_bind_ok rfl run
      split at run
      · obtain ⟨-, rfl⟩ := Prod.mk.inj run
        rw [disk]
        exact .refl _
      · obtain ⟨empty, second, -, disk, run⟩ :=
          (asks_list directory).run_bind_ok disk run
        split at run
        · obtain ⟨-, rfl⟩ := Prod.mk.inj run
          rw [disk]
          exact .refl _
        · obtain ⟨done, third, -, disk, run⟩ := (reads_emit _).run_bind_ok disk run
          obtain ⟨done, fourth, removing, run⟩ := run_bind_ok_iff.mp run
          have removed := run_removeDirectory_ok removing
          rw [disk] at removed
          have pruned := Disk.pruned_removeDirectory removed
          split at run
          · obtain ⟨-, rfl⟩ := Prod.mk.inj run
            exact pruned
          · exact pruned.trans (inductionHypothesis run)

/-- Pruning removes empty directories and nothing else, up to whichever directory it stops at. -/
theorem pruned_prune {directory : Text} {value : Unit}
    (run : (project.prune directory).run world = (.ok value, after)) :
    Disk.Pruned world.disk after.disk := by
  obtain ⟨roots, first, -, disk, run⟩ := (asks_roots project.roots).run_bind_ok rfl run
  obtain ⟨paths, second, -, disk, run⟩ := (asks_normalizeAll roots).run_bind_ok disk run
  rw [← disk]
  exact pruned_pruneWith run

/-- A file is moved in three steps: directories are added, its node takes another location, and
directories are removed. -/
theorem moveFile_ok {value : Unit} (found : world.disk.find old = .ok (place, .file content))
    (run : (project.moveFile old new).run world = (.ok value, after)) :
    ∃ made moved target, world.disk.makeDirectories (Path.directory new) = (made, none) ∧
      Disk.Made world.disk made ∧ Disk.Moved made moved place.location target content ∧
      ((∃ directory, made.find new = .ok (directory, .directory)) ∧
          made.tree.get? target = none ∧
          made.locate (Path.append new (Path.baseName (Text.trimEnd '/' old))) =
            .ok (.ofLocation target) ∨
        made.locate new = .ok (.ofLocation target) ∧ Disk.wantsDirectory new = false) ∧
      Disk.Pruned moved after.disk := by
  obtain ⟨done, first, -, disk, run⟩ := (reads_emit _).run_bind_ok rfl run
  rw [← disk] at found ⊢
  obtain ⟨done, second, making, run⟩ := run_bind_ok_iff.mp run
  obtain ⟨done, third, moving, pruning⟩ := run_bind_ok_iff.mp run
  have directories := run_makeDirectories_ok making
  have made := Disk.made_makeDirectories directories
  have kept := made.keeps.find found (made.files _)
  obtain ⟨target, moved, led⟩ := Disk.move_file kept (run_move_ok moving)
  exact ⟨second.disk, third.disk, target, directories, made, moved, led,
    pruned_prune pruning⟩

/-- The disk whose files are those of another one, but for a file that has gone from one location to
another one and may have been given another content. -/
structure Relocated (before after : Disk) (source target : Location) (content : Content) :
    Prop where
  files : ∀ location, after.tree.fileAt location =
    if location = target then some content
    else if location = source then none
    else before.tree.fileAt location

/-- The disk after a file has gone to a new path, as far as directories go: the current one may have
been removed, and there are none but those that were there and those made for the path. -/
structure Confined (before after : Disk) (new : Text) : Prop where
  cwd : before.cwd.Withdrawn after.cwd
  directories : ∀ location, after.tree.get? location = some .directory →
    (before.makeDirectories (Path.directory new)).1.tree.get? location = some .directory
  stays : after.tree.get? before.cwd.location = some .directory → after.cwd = before.cwd

/-- Files may be written afterwards. -/
theorem Confined.written {before middle after : Disk} (confined : Confined before middle new)
    (keeps : middle.KeepsDirectories after)
    (directories : ∀ location, after.tree.get? location = some .directory →
      middle.tree.get? location = some .directory) : Confined before after new where
  cwd := keeps.1 ▸ confined.cwd
  directories := fun location directory =>
    confined.directories location (directories location directory)
  stays := fun directory => keeps.1.trans (confined.stays (directories _ directory))

/-- Moving a file makes directories on the way to the new path only: what comes before the move
makes these, and what comes after it removes. -/
theorem confined_moveFile {value : Unit} (found : world.disk.find old = .ok (place, .file content))
    (run : (project.moveFile old new).run world = (.ok value, after)) :
    Confined world.disk after.disk new := by
  obtain ⟨made, moved, target, directories, making, moving, -, pruning⟩ :=
    moveFile_ok found run
  have cwd : moved.cwd = world.disk.cwd := moving.cwd.trans making.keeps.1
  refine ⟨cwd ▸ pruning.cwd, ?_, cwd ▸ pruning.stays⟩
  · intro location directory
    have before := pruning.directories location directory
    rw [moving.nodes] at before
    rw [directories]
    split at before
    · simp at before
    · split at before
      · simp at before
      · exact before

/-- A moved file is somewhere else, and if a file is found at the new path, it is the moved one.
Neither making nor removing directories changes a file. If the new path had led to a directory, no
file would be found there now. -/
theorem moveFile_relocated {value : Unit} (found : world.disk.find old = .ok (place, .file content))
    (run : (project.moveFile old new).run world = (.ok value, after)) :
    ∃ target, Relocated world.disk after.disk place.location target content ∧
      ∀ spot held, after.disk.find new = .ok (spot, .file held) →
        target = world.disk.destination new ∧ spot = .ofLocation target ∧ held = content := by
  obtain ⟨made, moved, target, -, making, moving, led, pruning⟩ := moveFile_ok found run
  refine ⟨target, ⟨fun location => ?_⟩, fun spot held there => ?_⟩
  · rw [pruning.files, moving.fileAt, making.files]
  · have before := pruning.found new spot held there
    obtain ⟨located, node, -⟩ := Disk.find_file_iff.mp before
    obtain ⟨⟨directory, wrong⟩, -⟩ | ⟨reached, -⟩ := led
    · obtain ⟨other, isDirectory⟩ := Disk.find_directory_iff.mp wrong
      have same := Except.ok.inj (located.symm.trans (moving.keeps.locate other))
      have still := moving.keeps.nodeAt isDirectory
      rw [← same, node] at still
      simp at still
    · have same := Except.ok.inj (located.symm.trans (moving.keeps.locate reached))
      have here := Disk.locate_destination reached rfl
      rw [Disk.destination_of_cwd making.keeps.1] at here
      subst same
      have file : moved.tree.fileAt target = some held := (Disk.nodeAt_file_iff.mp node).2
      rw [moving.fileAt, if_pos rfl] at file
      exact ⟨congrArg Place.location here, rfl, (Option.some.inj file).symm⟩

/-- A file that is moved to a direct path where nothing was is found there. -/
theorem moveFile_direct {value : Unit} (found : world.disk.find old = .ok (place, .file content))
    (direct : Path.isDirect new = true) (absent : world.disk.pathExists new = false)
    (run : (project.moveFile old new).run world = (.ok value, after)) :
    Relocated world.disk after.disk place.location (Path.destination new) content ∧
      after.disk.find new = .ok (.ofLocation (Path.destination new), .file content) ∧
      world.disk.tree.get? (Path.destination new) = none := by
  obtain ⟨made, moved, target, directories, making, moving, led, pruning⟩ :=
    moveFile_ok found run
  obtain ⟨absolute, nonempty, -, plain⟩ := isDirect_iff.mp direct
  -- Only directories above the new path are made, so there is none at it.
  have shallow : made.tree.get? (Path.destination new) =
      world.disk.tree.get? (Path.destination new) := by
    apply Disk.shallow_makeDirectories (Disk.isAbsolute_directory absolute) directories
    rw [Disk.steps_directory plain, destination_direct direct, List.length_dropLast]
    have positive := List.length_pos_iff.mpr nonempty
    omega
  obtain ⟨⟨directory, wrong⟩, -⟩ | ⟨reached, -⟩ := led
  · obtain ⟨located, isDirectory⟩ := Disk.find_directory_iff.mp wrong
    have free := free_of_not_exists direct located absent
    rw [← shallow] at free
    rw [Disk.locate_absolute absolute located] at isDirectory
    change made.tree.get? (Path.destination new) = _ at isDirectory
    rw [free] at isDirectory
    simp at isDirectory
  · have same := Disk.locate_absolute absolute reached
    obtain rfl : target = Path.destination new := congrArg Place.location same
    have relocated :
        Relocated world.disk after.disk place.location (Path.destination new) content :=
      ⟨fun location => by rw [pruning.files, moving.fileAt, making.files]⟩
    have file := relocated.files (Path.destination new)
    rw [if_pos rfl] at file
    exact ⟨relocated, find_direct direct reached
      (FileTree.fileAt_eq_some_iff.mp file),
      free_of_not_exists direct reached absent⟩

end Moving

section Writing

variable {world after : World}

/-- The disk after texts have been written to paths in turn. -/
structure Updated (before after : Disk) (texts : List (Text × Text)) : Prop where
  keeps : before.KeepsDirectories after
  found : ∀ entry ∈ texts, ∃ text, after.find entry.1 =
    .ok (.ofLocation (before.destination entry.1), .file (.text text))
  files : ∀ location,
    (∃ entry ∈ texts, before.destination entry.1 = location ∧
      after.tree.fileAt location = some (.text entry.2)) ∨
    ((∀ entry ∈ texts, before.destination entry.1 ≠ location) ∧
      after.tree.fileAt location = before.tree.fileAt location)
  directories : ∀ location, after.tree.get? location = some .directory →
    before.tree.get? location = some .directory

/-- A text that is written before others. What the later texts leave as it is, this one has written
or left as well. -/
theorem Updated.cons {before middle after : Disk} {entry : Text × Text}
    {texts : List (Text × Text)} (written : before.write entry.1 (.text entry.2) = .ok middle)
    (updated : Updated middle after texts) : Updated before after (entry :: texts) := by
  have keeps := Disk.keepsDirectories_write written
  have same (path : Text) : middle.destination path = before.destination path :=
    Disk.destination_of_cwd keeps.1 path
  have file := Disk.fileAt_write written
  refine ⟨keeps.trans updated.keeps, fun other member => ?_,
    fun location => ?_, fun location directory =>
      (Disk.directory_write_iff written).mp (updated.directories location directory)⟩
  · obtain rfl | later := List.mem_cons.mp member
    · obtain ⟨located, node, plain⟩ := Disk.find_file_iff.mp (Disk.find_write written)
      have held : ∃ text, after.tree.fileAt (before.destination other.1) = some (.text text) := by
        obtain ⟨other', -, -, held⟩ | ⟨-, kept⟩ := updated.files (before.destination other.1)
        · exact ⟨_, held⟩
        · rw [kept, file, if_pos rfl]
          exact ⟨_, rfl⟩
      obtain ⟨text, held⟩ := held
      exact ⟨text, Disk.find_file_iff.mpr
        ⟨updated.keeps.locate located, Disk.nodeAt_file_iff.mpr ⟨rfl, held⟩, plain⟩⟩
    · obtain ⟨text, found⟩ := updated.found other later
      rw [same] at found
      exact ⟨text, found⟩
  · obtain ⟨other, member, led, held⟩ | ⟨apart, kept⟩ := updated.files location
    · rw [same] at led
      exact .inl ⟨other, List.mem_cons_of_mem _ member, led, held⟩
    · rw [file] at kept
      by_cases here : location = before.destination entry.1
      · rw [if_pos here] at kept
        exact .inl ⟨entry, by simp, here.symm, kept⟩
      · rw [if_neg here] at kept
        refine .inr ⟨fun other member => ?_, kept⟩
        obtain rfl | later := List.mem_cons.mp member
        · exact fun equal => here equal.symm
        · rw [← same]
          exact apart other later

/-- Writing text after text updates the disk by all of them. By induction on the texts. -/
theorem updated_forEach {texts : List (Text × Text)} {value : Unit}
    (run : (forEach texts fun entry => update entry.1 entry.2).run world = (.ok value, after)) :
    Updated world.disk after.disk texts := by
  induction texts generalizing world with
  | nil =>
    obtain ⟨-, rfl⟩ := Prod.mk.inj run
    exact ⟨⟨rfl, fun _ found => found⟩, by simp, fun _ => .inr ⟨by simp, rfl⟩,
      fun _ directory => directory⟩
  | cons entry texts inductionHypothesis =>
    obtain ⟨done, middle, first, rest⟩ := run_bind_ok_iff.mp run
    obtain ⟨told, start, -, disk, first⟩ := (reads_emit _).run_bind_ok rfl first
    have written := run_writeText_ok first
    rw [disk] at written
    exact (inductionHypothesis rest).cons written

end Writing

section Renaming

variable {project : Project} {world after : World} {old new module : Text} {place : Place}
  {written : List Text}

/-- A file without a module is only moved. -/
theorem renameFile_plain (declared : ((project.declaredModule old).run world).1 = .ok none)
    (run : (project.renameFile old new).run world = (.ok written, after)) :
    ∃ start, start.disk = world.disk ∧ (project.moveFile old new).run start = (.ok (), after) := by
  obtain ⟨found, start, same, disk, rest⟩ :=
    (reads_declaredModule project old).run_bind_ok rfl run
  obtain rfl := Except.ok.inj (declared.symm.trans same)
  obtain ⟨done, moved, moving, finished⟩ := run_bind_ok_iff.mp rest
  obtain ⟨-, rfl⟩ := Prod.mk.inj finished
  exact ⟨start, disk, moving⟩

/-- A plan is worked out from the disk as it is. -/
theorem plan_ok {plan : MovePlan}
    (planned : ((project.plan old new module).run world).1 = .ok plan) :
    ∃ newModule graph texts, ((project.resolve new).run world).1 = .ok newModule ∧
      (project.graph.run world).1 = .ok graph ∧
      ((updatedTexts module newModule (graph.dependentsOf module)).run world).1 = .ok texts ∧
      plan = ⟨old, new, module, newModule, OrderedMap.ofList texts⟩ := by
  have last (newModule : Text) (texts : List (Text × Text)) : Reads (do
      emit (.planned module newModule (OrderedMap.ofList texts).size)
      Pure.pure (⟨old, new, module, newModule, OrderedMap.ofList texts⟩ : MovePlan)) :=
    (reads_emit _).bind fun _ => reads_pure _
  have later (newModule : Text) (graph : ModuleGraph) : Reads (do
      let texts ← updatedTexts module newModule (graph.dependentsOf module)
      emit (.planned module newModule (OrderedMap.ofList texts).size)
      Pure.pure (⟨old, new, module, newModule, OrderedMap.ofList texts⟩ : MovePlan)) :=
    (reads_updatedTexts _ _ _).bind (last newModule)
  rw [Project.plan, (reads_resolve project new).value_bind_ok_iff
    fun newModule => (reads_graph project).bind (later newModule)] at planned
  obtain ⟨newModule, resolved, planned⟩ := planned
  rw [(reads_graph project).value_bind_ok_iff (later newModule)] at planned
  obtain ⟨graph, built, planned⟩ := planned
  rw [(reads_updatedTexts _ _ _).value_bind_ok_iff (last newModule)] at planned
  obtain ⟨texts, worked, planned⟩ := planned
  exact ⟨newModule, graph, texts, resolved, built, worked, (Except.ok.inj planned).symm⟩

/-- Planning a rename leaves the disk as it is: nothing is written before the plan is complete. -/
theorem reads_plan (project : Project) (old new module : Text) :
    Reads (project.plan old new module) := by
  refine (reads_resolve project new).bind fun newModule => ?_
  refine (reads_graph project).bind fun graph => ?_
  refine (reads_updatedTexts _ _ _).bind fun texts => ?_
  exact (reads_emit _).bind fun _ => reads_pure _

/-- A file with a module is moved and gets its new module name, and then its dependents are written.
The steps are undone one by one: the plan, the move, the new name and the dependents. The text that
gets the new name is read at the new path, where the moved file is. -/
theorem renameFile_module {text : Text}
    (found : world.disk.find old = .ok (place, .file (.text text)))
    (declared : ((project.declaredModule old).run world).1 = .ok (some module))
    (run : (project.renameFile old new).run world = (.ok written, after)) :
    ∃ newModule graph texts middle, ((project.resolve new).run world).1 = .ok newModule ∧
      (project.graph.run world).1 = .ok graph ∧
      ((updatedTexts module newModule (graph.dependentsOf module)).run world).1 = .ok texts ∧
      Relocated world.disk middle place.location (world.disk.destination new)
        (.text (Text.replaceFirst module newModule text)) ∧
      middle.find new = .ok (.ofLocation (world.disk.destination new),
        .file (.text (Text.replaceFirst module newModule text))) ∧
      Confined world.disk middle new ∧
      Updated middle after.disk (OrderedMap.ofList texts).entries := by
  obtain ⟨given, start, same, disk, rest⟩ := (reads_declaredModule project old).run_bind_ok rfl run
  obtain rfl := Except.ok.inj (declared.symm.trans same)
  obtain ⟨plan, ready, planned, disk, rest⟩ :=
    (reads_plan project old new module).run_bind_ok disk rest
  obtain ⟨newModule, graph, texts, resolved, built, worked, rfl⟩ := plan_ok planned
  obtain ⟨done, moved, moving, rest⟩ := run_bind_ok_iff.mp rest
  obtain ⟨done, named, naming, rest⟩ := run_bind_ok_iff.mp rest
  obtain ⟨done, finished, updating, rest⟩ := run_bind_ok_iff.mp rest
  obtain ⟨-, rfl⟩ := Prod.mk.inj rest
  rw [← disk] at found
  obtain ⟨target, relocated, leads⟩ := moveFile_relocated found moving
  have confined := confined_moveFile found moving
  rw [disk] at relocated leads confined
  obtain ⟨held, reading, read, sameDisk, writing⟩ := (reads_readText new).run_bind_ok rfl naming
  have content := run_readText_ok read
  have writes := run_writeText_ok writing
  rw [sameDisk] at writes
  -- The file that is read at the new path is the moved one.
  obtain ⟨spot, there⟩ := Disk.find_of_read content
  obtain ⟨rfl, rfl, same⟩ := leads spot _ there
  obtain rfl := Content.text.inj same
  have led : moved.disk.destination new = world.disk.destination new :=
    (congrArg Place.location (Disk.find_destination there).1).symm
  have files := Disk.fileAt_write writes
  have here := Disk.find_write writes
  rw [led] at files here
  refine ⟨newModule, graph, texts, named.disk, resolved, built, worked, ⟨?_⟩, here, ?_, ?_⟩
  · intro location
    rw [files, relocated.files]
    split
    · rfl
    · rfl
  · exact confined.written (Disk.keepsDirectories_write writes) fun _ directory =>
      (Disk.directory_write_iff writes).mp directory
  · exact updated_forEach updating

/-- Which files there are after a file with a module has been renamed: its dependents with their new
texts, the file at its new place with its new name in it, and the others as they were. -/
theorem renameFile_files {text : Text}
    (found : world.disk.find old = .ok (place, .file (.text text)))
    (declared : ((project.declaredModule old).run world).1 = .ok (some module))
    (run : (project.renameFile old new).run world = (.ok written, after)) :
    ∃ newModule graph, ((project.resolve new).run world).1 = .ok newModule ∧
      (project.graph.run world).1 = .ok graph ∧
      (∃ content, after.disk.find new =
        .ok (.ofLocation (world.disk.destination new), .file content)) ∧
      (∀ path ∈ graph.dependentsOf module, ∃ content, after.disk.find path =
        .ok (.ofLocation (Path.destination path), .file content)) ∧
      ∀ location,
        (∃ path ∈ graph.dependentsOf module, ∃ before renamed,
          Path.destination path = location ∧ world.disk.read path = .ok (.text before) ∧
          renameInText module newModule before = .ok renamed ∧
          after.disk.tree.fileAt location = some (.text renamed)) ∨
        ((∀ path ∈ graph.dependentsOf module, Path.destination path ≠ location) ∧
          after.disk.tree.fileAt location =
            if location = world.disk.destination new then
              some (.text (Text.replaceFirst module newModule text))
            else if location = place.location then none
            else world.disk.tree.fileAt location) := by
  obtain ⟨newModule, graph, texts, middle, resolved, built, worked, relocated, there, -, updated⟩ :=
    renameFile_module found declared run
  obtain ⟨paths, worked⟩ := updatedTexts_ok worked
  obtain ⟨located, -, plain⟩ := Disk.find_file_iff.mp there
  have absolute (path : Text) (dependent : path ∈ graph.dependentsOf module) :
      middle.destination path = Path.destination path := by
    obtain ⟨roots, listed, -⟩ := graph_ok_iff.mp built
    obtain ⟨met, -⟩ := (mem_dependentsOf_graph listed built).mp dependent
    exact Disk.destination_absolute _ (isAbsolute_of_mem_scan met)
  have entries (path : Text) (dependent : path ∈ graph.dependentsOf module) :
      ∃ entry ∈ (OrderedMap.ofList texts).entries, entry.1 = path := by
    rw [← paths] at dependent
    exact List.mem_map.mp (OrderedMap.mem_keys_ofList.mpr dependent)
  refine ⟨newModule, graph, resolved, built, ?_, ?_, fun location => ?_⟩
  · obtain ⟨content, held⟩ :
        ∃ content, after.disk.tree.fileAt (world.disk.destination new) = some content := by
      obtain ⟨entry, -, -, held⟩ | ⟨-, kept⟩ := updated.files (world.disk.destination new)
      · exact ⟨_, held⟩
      · rw [kept, relocated.files, if_pos rfl]
        exact ⟨_, rfl⟩
    exact ⟨content, Disk.find_file_iff.mpr
      ⟨updated.keeps.locate located, Disk.nodeAt_file_iff.mpr ⟨rfl, held⟩, plain⟩⟩
  · intro path dependent
    obtain ⟨entry, member, rfl⟩ := entries path dependent
    obtain ⟨text, found⟩ := updated.found entry member
    rw [absolute _ dependent] at found
    exact ⟨_, found⟩
  · obtain ⟨entry, member, led, held⟩ | ⟨apart, kept⟩ := updated.files location
    · have inside := OrderedMap.mem_of_mem_ofList member
      have dependent : entry.1 ∈ graph.dependentsOf module :=
        paths ▸ List.mem_map_of_mem inside
      obtain ⟨before, read, renamed⟩ := worked entry inside
      rw [absolute _ dependent] at led
      exact .inl ⟨entry.1, dependent, before, entry.2, led, read, renamed, held⟩
    · refine .inr ⟨fun path dependent => ?_, kept.trans (relocated.files location)⟩
      obtain ⟨entry, member, rfl⟩ := entries path dependent
      rw [← absolute _ dependent]
      exact apart entry member

/-- However a file is renamed, no directories come but those made for its new path. Texts that are
written make no directories, so that only the move counts. -/
theorem confined_renameFile {content : Content}
    (found : world.disk.find old = .ok (place, .file content))
    (run : (project.renameFile old new).run world = (.ok written, after)) :
    Confined world.disk after.disk new := by
  obtain ⟨module, middle, declared, -, -⟩ :=
    (reads_declaredModule project old).run_bind_ok rfl run
  cases module with
  | none =>
    obtain ⟨start, disk, moving⟩ := renameFile_plain declared run
    rw [← disk] at found ⊢
    exact confined_moveFile found moving
  | some module =>
    obtain ⟨-, text, declaration, read, -⟩ := declaredModule_some declared
    obtain ⟨spot, textFound⟩ := Disk.find_of_read read
    obtain ⟨-, -, _, middle, -, -, -, -, -, confined, updated⟩ :=
      renameFile_module textFound declared run
    exact confined.written updated.keeps updated.directories

end Renaming

section Arguments

variable {project : Project} {world after : World} {old new oldPath newPath : Text}
  {listed : List Text}

/-- A disk normalizes a path from an absolute one. -/
theorem exists_start_of_normalize {disk : Disk} {path normal : Text}
    (normalized : disk.normalize path = .ok normal) :
    ∃ start, Path.isAbsolute start = true ∧ normal = Path.normalize start path := by
  unfold Disk.normalize at normalized
  cases start : disk.startOf path with
  | error error => simp [start, Except.map] at normalized
  | ok base =>
    rw [start] at normalized
    refine ⟨base, ?_, (Except.ok.inj normalized).symm⟩
    unfold Disk.startOf at start
    split at start
    · rw [← Except.ok.inj start]
      rfl
    · unfold Disk.currentPath at start
      split at start
      · rw [← Except.ok.inj start]
        rfl
      · simp at start

/-- An argument is normalized to an absolute path. -/
theorem isAbsolute_of_normalize {disk : Disk} {path normal : Text}
    (normalized : disk.normalize path = .ok normal) : Path.isAbsolute normal = true := by
  obtain ⟨start, absolute, rfl⟩ := exists_start_of_normalize normalized
  exact Path.isAbsolute_normalize absolute path

/-- Checking an argument leaves the disk as it is. -/
theorem reads_pathArgument (path : Option Text) : Reads (pathArgument path) := by
  unfold pathArgument
  split
  · exact reads_fail _
  · split
    · exact reads_fail _
    · exact reads_pure _

/-- An argument that is accepted is given on as it is. -/
theorem pathArgument_some {path given : Text}
    (asked : ((pathArgument (some path)).run world).1 = .ok given) : given = path := by
  unfold pathArgument at asked
  simp only at asked
  split at asked
  · simp at asked
  · exact (Except.ok.inj asked).symm

/-- An argument that is not blank is accepted. -/
theorem run_pathArgument {path : Text} (plain : Text.isBlank path = false) (world : World) :
    (pathArgument (some path)).run world = (.ok path, world) := by
  simp [pathArgument, plain]

/-- A rename is that of a directory or of a file between the normalized paths. Then the paths of the
files written are normalized and put in order, and nothing else is done to the disk. -/
theorem rename_ok (oldNormal : world.disk.normalize old = .ok oldPath)
    (newNormal : world.disk.normalize new = .ok newPath)
    (run : (project.rename (some old) (some new)).run world = (.ok listed, after)) :
    ∃ (file : Bool) (start finished : World) (written normals : List Text),
      start.disk = world.disk ∧ after.disk = finished.disk ∧
      (if world.disk.isDirectory (Path.tidy oldPath) then project.renameDirectory oldPath newPath
        else if file then do
          let written ← project.renameFile oldPath newPath
          Pure.pure (Text.sortedSet (newPath :: written))
        else fail (.argument (.missing oldPath))).run start = (.ok written, finished) ∧
      ((normalizeAll written).run finished).1 = .ok normals ∧ listed = Text.sort normals := by
  obtain ⟨given, first, oldAsked, disk, run⟩ := (reads_pathArgument _).run_bind_ok rfl run
  rw [pathArgument_some oldAsked] at run
  obtain ⟨given, second, newAsked, disk, run⟩ := (reads_pathArgument _).run_bind_ok disk run
  rw [pathArgument_some newAsked] at run
  obtain ⟨path, third, oldGiven, disk, run⟩ := (asks_normalize _).run_bind_ok disk run
  rw [Except.ok.inj ((run_normalize_ok oldGiven).symm.trans oldNormal)] at run
  obtain ⟨path, fourth, newGiven, disk, run⟩ := (asks_normalize _).run_bind_ok disk run
  rw [Except.ok.inj ((run_normalize_ok newGiven).symm.trans newNormal)] at run
  obtain ⟨directory, fifth, asked, disk, run⟩ := (asks_isDirectory _).run_bind_ok disk run
  rw [run_isDirectory_ok asked] at run
  obtain ⟨file, start, -, disk, run⟩ := (asks_isFile _).run_bind_ok disk run
  have last {action : Action (List Text)}
      (run : (do
        let written ← action
        let paths ← normalizeAll written
        Pure.pure (Text.sort paths)).run start = (.ok listed, after)) :
      ∃ finished written normals, after.disk = finished.disk ∧
        action.run start = (.ok written, finished) ∧
        ((normalizeAll written).run finished).1 = .ok normals ∧ listed = Text.sort normals := by
    obtain ⟨written, finished, ran, rest⟩ := run_bind_ok_iff.mp run
    obtain ⟨normals, ordered, normal, kept, rest⟩ :=
      (asks_normalizeAll written).run_bind_ok rfl rest
    obtain ⟨same, rfl⟩ := Prod.mk.inj rest
    exact ⟨finished, written, normals, kept, ran, normal, (Except.ok.inj same).symm⟩
  simp only at run
  split at run
  · rename_i isDirectory
    obtain ⟨finished, written, normals, kept, ran, normal, same⟩ := last run
    exact ⟨file, start, finished, written, normals, disk, kept, by rwa [if_pos isDirectory],
      normal, same⟩
  · rename_i noDirectory
    split at run
    · rename_i isFile
      obtain ⟨each, middle, renamed, rest⟩ := run_bind_ok_iff.mp run
      obtain ⟨finished, written, normals, kept, ran, normal, same⟩ := @last
        (do
          let written ← project.renameFile oldPath newPath
          Pure.pure (Text.sortedSet (newPath :: written)))
        (run_bind_ok_iff.mpr ⟨_, middle, run_bind_ok_iff.mpr ⟨each, middle, renamed, rfl⟩, rest⟩)
      exact ⟨file, start, finished, written, normals, disk, kept,
        by rwa [if_neg noDirectory, if_pos isFile], normal, same⟩
    · obtain ⟨written, finished, failed, -⟩ := run_bind_ok_iff.mp run
      simp at failed

/-- A file is renamed between the normalized paths, and nothing else is done to the disk. -/
theorem rename_file (oldNormal : world.disk.normalize old = .ok oldPath)
    (newNormal : world.disk.normalize new = .ok newPath) (file : world.disk.isFile oldPath = true)
    (run : (project.rename (some old) (some new)).run world = (.ok listed, after)) :
    ∃ start finished written, start.disk = world.disk ∧ after.disk = finished.disk ∧
      (project.renameFile oldPath newPath).run start = (.ok written, finished) := by
  obtain ⟨isFile, start, finished, written, -, disk, kept, run, -⟩ :=
    rename_ok oldNormal newNormal run
  rw [if_neg (by simp [Disk.isDirectory_tidy (isAbsolute_of_normalize oldNormal) file])] at run
  split at run
  · obtain ⟨each, middle, renamed, rest⟩ := run_bind_ok_iff.mp run
    obtain ⟨-, rfl⟩ := Prod.mk.inj rest
    exact ⟨start, middle, each, disk, kept, renamed⟩
  · simp at run

end Arguments

end Relocate.Project
