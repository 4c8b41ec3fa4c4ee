import Relocate.Proofs.Rename.Moves
import Relocate.Proofs.Outcomes
import Relocate.Proofs.Declaration.Codec

/-!
# What stops the rename of a file

A rename may be refused for its arguments or because the new path belongs to no source root. This is
settled before anything is changed. Once the file has been moved, only the disk can stop it.

Files are read in four places. What a file declares and what the dependency graph is made of are
read with care: files that are no text or have no usable declaration are passed over. The dependents
are read again without care, but the graph has come upon their declarations on the same disk, and
the moved file is read at its new path after its declaration was read at the old one.
-/
namespace Relocate.Project

open Action

section Faults

/-- Pruning fails by faults of the disk only. By induction on the bound. -/
theorem onlyFaults_pruneWith (boundaries : List Text) (bound : Nat) (directory : Text) :
    OnlyFaults (pruneWith boundaries bound directory) := by
  induction bound generalizing directory with
  | zero => exact onlyFaults_pure _
  | succ bound inductionHypothesis =>
    unfold pruneWith
    split
    · exact onlyFaults_pure _
    · refine (asks_isDirectory directory).faults.bind fun found => ?_
      split
      · exact onlyFaults_pure _
      · refine (asks_list directory).faults.bind fun empty => ?_
        split
        · exact onlyFaults_pure _
        · refine (onlyFaults_emit _).bind fun _ => ?_
          refine (onlyFaults_removeDirectory directory).bind fun _ => ?_
          split
          · exact onlyFaults_pure _
          · exact inductionHypothesis _

/-- Moving a file fails by faults of the disk only, at whichever of its steps. -/
theorem onlyFaults_moveFile (project : Project) (old new : Text) :
    OnlyFaults (project.moveFile old new) := by
  refine (onlyFaults_emit _).bind fun _ => ?_
  refine (onlyFaults_makeDirectories _).bind fun _ => ?_
  refine (onlyFaults_move old new).bind fun _ => ?_
  refine (asks_roots _).faults.bind fun roots => ?_
  exact (asks_normalizeAll _).faults.bind fun _ => onlyFaults_pruneWith _ _ _

/-- Writing a planned text fails by faults of the disk only. -/
theorem onlyFaults_update (path text : Text) : OnlyFaults (update path text) :=
  (onlyFaults_emit _).bind fun _ => onlyFaults_writeText path text

end Faults

section Dependents

variable {project : Project} {world : World} {path old new module : Text}

/-- A text that the disk has is read. -/
theorem run_readText_of_read {text : Text} (held : world.disk.read path = .ok (.text text)) :
    ((readText path).run world).1 = .ok text := by
  rw [readText, (asks_readContent path).value_bind_ok_iff]
  · exact ⟨_, run_readContent_of_read held, rfl⟩
  · intro content
    cases content with
    | text text => exact reads_pure text
    | binary bytes fault => exact reads_fail _

/-- A text with a usable declaration can be given another one. -/
theorem renameInText_of_parsed {text : Text} {declaration : Declaration}
    (parsed : Declaration.parse text = .ok declaration) (old new : Text) :
    ∃ renamed, renameInText old new text = .ok renamed := by
  obtain ⟨file, found, -⟩ := sourceFile_of_parse parsed
  exact ⟨_, by rw [renameInText, found]; rfl⟩

/-- The new text of a file with a usable declaration can be worked out. -/
theorem updatedText_of_declared {declaration : Declaration}
    (declared : world.disk.declarationAt path = some declaration) (old new : Text) :
    ∃ renamed, ((updatedText path old new).run world).1 = .ok renamed := by
  obtain ⟨text, read, parsed⟩ := declarationAt_eq_some_iff.mp declared
  obtain ⟨renamed, worked⟩ := renameInText_of_parsed parsed old new
  have rest (before : Text) : Reads (ofExcept Failure.declaration (renameInText old new before)) :=
    reads_ofExcept _ _
  refine ⟨renamed, ?_⟩
  rw [updatedText, (reads_emit _).value_bind_ok_iff fun _ => (reads_readText path).bind rest]
  refine ⟨(), rfl, ?_⟩
  rw [(reads_readText path).value_bind_ok_iff rest]
  exact ⟨text, run_readText_of_read read, by rw [worked]; rfl⟩

/-- The new texts of files that declare something can all be worked out: each is read and has a
declaration, and that is all that is needed. By induction on the files. -/
theorem updatedTexts_of_declared {paths : List Text}
    (declared : ∀ path ∈ paths, ∃ declaration, world.disk.declarationAt path = some declaration)
    (old new : Text) : ∃ texts, ((updatedTexts old new paths).run world).1 = .ok texts := by
  induction paths with
  | nil => exact ⟨[], rfl⟩
  | cons path paths inductionHypothesis =>
    obtain ⟨declaration, usable⟩ := declared path List.mem_cons_self
    obtain ⟨renamed, first⟩ := updatedText_of_declared usable old new
    obtain ⟨others, later⟩ :=
      inductionHypothesis fun other member => declared other (.tail _ member)
    refine ⟨(path, renamed) :: others, ?_⟩
    rw [updatedTexts, (reads_updatedText path old new).value_bind_ok_iff
      fun text => (reads_updatedTexts old new paths).bind fun others => reads_pure _]
    refine ⟨renamed, first, ?_⟩
    rw [(reads_updatedTexts old new paths).value_bind_ok_iff fun others => reads_pure _]
    exact ⟨others, later, rfl⟩

/-- The files that depend on a module have usable declarations. -/
theorem declared_of_dependent {graph : ModuleGraph}
    (built : (project.graph.run world).1 = .ok graph)
    (dependent : path ∈ graph.dependentsOf module) :
    ∃ declaration, world.disk.declarationAt path = some declaration := by
  obtain ⟨roots, listed, -⟩ := graph_ok_iff.mp built
  obtain ⟨-, declaration, declared, -⟩ := (mem_dependentsOf_graph listed built).mp dependent
  exact ⟨declaration, declared⟩

end Dependents

section Stopping

variable {project : Project} {world : World} {path old new module : Text}

/-- The failure comes from the disk. -/
def IsFault (failure : Failure) (_ : Disk) : Prop := failure.isFault = true

/-- The failure comes from the disk, or it is a refusal and the disk is as it was. -/
def Spares (before : Disk) (failure : Failure) (after : Disk) : Prop :=
  failure.isFault = true ∨ failure.isRefusal = true ∧ after = before

/-- What fails by faults alone spares any disk. -/
theorem spares_of_isFault {α : Type} {action : Action α} (faults : FailsWith action world IsFault)
    {before : Disk} : FailsWith action world (Spares before) :=
  fun failure after ran => .inl (faults failure after ran)

/-- An action whose failures are all faults fails by faults in every world. -/
theorem isFault_of_onlyFaults {α : Type} {action : Action α} (faults : OnlyFaults action) :
    FailsWith action world IsFault :=
  faults.failsWith fun _ _ fault => fault

/-- An action whose failures are all faults spares any disk. -/
theorem spares_of_onlyFaults {α : Type} {action : Action α} (faults : OnlyFaults action)
    {before : Disk} : FailsWith action world (Spares before) :=
  spares_of_isFault (isFault_of_onlyFaults faults)

/-- To find the module of a path, the disk is only asked, and a path outside the source roots is
refused. -/
theorem spares_resolve (project : Project) (path : Text) (world : World) :
    FailsWith (project.resolve path) world (Spares world.disk) := by
  refine (asks_startOf path).failsWith_bind rfl
    (fun failure failed => .inl ((asks_startOf path).faults world failure failed)) ?_
  intro start middle _ disk
  refine (asks_roots project.roots).failsWith_bind disk
    (fun failure failed => .inl ((asks_roots _).faults _ failure failed)) ?_
  intro roots last _ disk
  exact failsWith_ofExcept fun error _ => .inr ⟨rfl, disk⟩

/-- A plan fails if the new path belongs to no source root, and otherwise only by faults. The texts
of the dependents can be worked out, because these have been parsed for the graph. -/
theorem spares_plan (project : Project) (old new module : Text) (world : World) :
    FailsWith (project.plan old new module) world (Spares world.disk) := by
  refine failsWith_bind (spares_resolve project new world) fun newModule middle ran => ?_
  have disk := (reads_resolve project new).disk world
  rw [ran] at disk
  refine (reads_graph project).failsWith_bind disk
    (fun failure failed => .inl ((asks_graph project).faults _ failure failed)) ?_
  intro graph scanned built disk
  refine (reads_updatedTexts module newModule _).failsWith_bind disk ?_ ?_
  · intro failure failed
    obtain ⟨texts, worked⟩ := updatedTexts_of_declared
      (fun path dependent => declared_of_dependent built dependent) module newModule
    rw [worked] at failed
    simp at failed
  · intro texts last _ _
    exact spares_of_onlyFaults ((onlyFaults_emit _).bind fun _ => onlyFaults_pure _)

/-- Once the file has been moved, its text is read at the new path as it was at the old one. -/
theorem isFault_renameOwnModule {plan : MovePlan} {text : Text} {place : Place} {moved : World}
    (found : world.disk.find plan.oldPath = .ok (place, .file (.text text)))
    (moving : (project.moveFile plan.oldPath plan.newPath).run world = (.ok (), moved)) :
    FailsWith (renameOwnModule plan) moved IsFault := by
  obtain ⟨target, -, leads⟩ := moveFile_relocated found moving
  refine failsWith_bind ?_ fun held last _ => isFault_of_onlyFaults (onlyFaults_writeText _ _)
  refine (asks_readContent _).failsWith_bind rfl
    (fun failure failed => (asks_readContent _).faults _ failure failed) ?_
  intro content last read _
  obtain ⟨spot, there⟩ := Disk.find_of_read (run_readContent_ok read)
  obtain ⟨-, -, rfl⟩ := leads spot content there
  exact isFault_of_onlyFaults (onlyFaults_pure text)

/-- What is done once all has been worked out: a plan is carried out, and a file without one is only
moved. -/
def carryOut (project : Project) (old new : Text) : Option MovePlan → Action (List Text)
  | none => do
    project.moveFile old new
    Pure.pure [new]
  | some plan => project.execute plan

/-- From there on only the disk can stop a rename: files are moved and written, and the one text
that is read again was read before. -/
theorem isFault_carryOut (project : Project) (old new : Text) {plan : Option MovePlan}
    (found : ∀ made ∈ plan, ∃ place text,
      world.disk.find made.oldPath = .ok (place, .file (.text text))) :
    FailsWith (project.carryOut old new plan) world IsFault := by
  cases plan with
  | none =>
    exact isFault_of_onlyFaults ((onlyFaults_moveFile project old new).bind fun _ =>
      onlyFaults_pure _)
  | some plan =>
    obtain ⟨place, text, found⟩ := found plan rfl
    refine failsWith_bind (isFault_of_onlyFaults (onlyFaults_moveFile project _ _)) ?_
    intro done moved moving
    refine failsWith_bind (isFault_renameOwnModule found moving) fun _ named _ => ?_
    exact isFault_of_onlyFaults ((onlyFaults_forEach fun entry => onlyFaults_update _ _).bind
      fun _ => onlyFaults_pure _)

/-- The file of a plan for a declared module is found as a text. -/
theorem found_of_declared {plan : MovePlan}
    (declared : ((project.declaredModule old).run world).1 = .ok (some module))
    (planned : ((project.plan old new module).run world).1 = .ok plan) :
    ∃ place text, world.disk.find plan.oldPath = .ok (place, .file (.text text)) := by
  obtain ⟨-, text, declaration, read, -⟩ := declaredModule_some declared
  obtain ⟨place, found⟩ := Disk.find_of_read read
  obtain ⟨newModule, graph, texts, -, -, -, rfl⟩ := plan_ok planned
  exact ⟨place, text, found⟩

/-- The rename of a file is refused while its plan is made, before anything is changed, or stopped
by the disk. The plan is made from the disk as it is, and once it is carried out only the disk can
stop it. -/
theorem spares_renameFile (old new : Text) :
    FailsWith (project.renameFile old new) world (Spares world.disk) := by
  refine (reads_declaredModule project old).failsWith_bind rfl
    (fun failure failed => .inl ((asks_declaredModule project old).faults _ failure failed)) ?_
  intro module start declared disk
  cases module with
  | none =>
    have only : ∀ made ∈ (none : Option MovePlan), ∃ place text,
        start.disk.find made.oldPath = .ok (place, .file (.text text)) := by simp
    exact spares_of_isFault (isFault_carryOut project old new only)
  | some module =>
    have declaredAtStart :=
      ((reads_declaredModule project old).value world start disk).trans declared
    rw [← disk]
    refine failsWith_bind (spares_plan project old new module start) fun plan ready planned => ?_
    have readyDisk := (reads_plan project old new module).disk start
    rw [planned] at readyDisk
    obtain ⟨place, text, found⟩ := found_of_declared declaredAtStart (congrArg Prod.fst planned)
    rw [← readyDisk] at found
    have only : ∀ made ∈ some plan, ∃ place text,
        ready.disk.find made.oldPath = .ok (place, .file (.text text)) := by
      rintro _ ⟨⟩
      exact ⟨place, text, found⟩
    exact spares_of_isFault (isFault_carryOut project old new only)

/-- An argument that is given is the path itself. -/
theorem pathArgument_ok {argument : Option Text} {given : Text}
    (asked : ((pathArgument argument).run world).1 = .ok given) : argument = some given := by
  cases argument with
  | none => simp [pathArgument] at asked
  | some path => rw [pathArgument_some asked]

/-- A missing or blank argument is refused. -/
theorem refusal_of_pathArgument {argument : Option Text} {failure : Failure}
    (failed : ((pathArgument argument).run world).1 = .error failure) :
    failure.isRefusal = true := by
  unfold pathArgument at failed
  split at failed
  · rw [← Except.error.inj failed]
    rfl
  · split at failed
    · rw [← Except.error.inj failed]
      rfl
    · simp at failed

/-- The rename of what is no directory is refused before it changes anything, or the disk stops
it. -/
theorem spares_rename {old new : Option Text}
    (noDirectory : ∀ path normal, old = some path → world.disk.normalize path = .ok normal →
      ((isDirectory normal).run world).1 ≠ .ok true) :
    FailsWith (project.rename old new) world (Spares world.disk) := by
  refine (reads_pathArgument old).failsWith_bind rfl
    (fun failure failed => .inr ⟨refusal_of_pathArgument failed, rfl⟩) ?_
  intro oldGiven first oldAsked disk
  refine (reads_pathArgument new).failsWith_bind disk
    (fun failure failed => .inr ⟨refusal_of_pathArgument failed, rfl⟩) ?_
  intro newGiven second newAsked disk
  refine (asks_normalize oldGiven).failsWith_bind disk
    (fun failure failed => .inl ((asks_normalize _).faults _ failure failed)) ?_
  intro oldPath third oldNormal disk
  refine (asks_normalize newGiven).failsWith_bind disk
    (fun failure failed => .inl ((asks_normalize _).faults _ failure failed)) ?_
  intro newPath fourth newNormal disk
  refine (asks_isDirectory oldPath).failsWith_bind disk
    (fun failure failed => .inl ((asks_isDirectory _).faults _ failure failed)) ?_
  intro directory fifth asked disk
  have other := noDirectory oldGiven oldPath (pathArgument_ok oldAsked) (run_normalize_ok oldNormal)
  obtain rfl : directory = false := by
    rw [asked] at other
    simpa using other
  simp only [Bool.false_eq_true, if_false]
  refine (asks_isFile oldPath).failsWith_bind disk
    (fun failure failed => .inl ((asks_isFile _).faults _ failure failed)) ?_
  intro file sixth _ disk
  split
  · refine failsWith_bind (disk ▸ spares_renameFile oldPath newPath) fun written finished _ => ?_
    exact spares_of_onlyFaults ((onlyFaults_pure _).bind fun written =>
      (asks_normalizeAll written).faults.bind fun _ => onlyFaults_pure _)
  · refine failsWith_bind (failsWith_fail (.inr ⟨rfl, disk⟩)) fun written finished _ => ?_
    exact spares_of_onlyFaults ((asks_normalizeAll written).faults.bind fun _ => onlyFaults_pure _)

/-- What the rename of a file has to come upon is there, whatever the files hold: a file at the old
path, a source root above the new one, and the source roots with source files that can be read. -/
structure Findable (project : Project) (world : World) (old new : Text) : Prop where
  file : ((isFile old).run world).1 = .ok true
  content : ∃ content, ((readContent old).run world).1 = .ok content
  module : ∃ module, ((project.resolve new).run world).1 = .ok module
  sources : ∃ roots, (project.roots.list.run world).1 = .ok roots ∧
    (∀ error, .stop error ∉ scan world.disk project.extensions [] roots) ∧
    ∀ path, .file path ∈ scan world.disk project.extensions [] roots →
      ∃ content, ((readContent path).run world).1 = .ok content

/-- What is a file is no directory. -/
theorem isDirectory_of_isFile (file : ((isFile path).run world).1 = .ok true) :
    ((isDirectory path).run world).1 = .ok false := by
  rw [isFile, (asks_look path).value_bind_ok_iff] at file
  · obtain ⟨node, looked, answer⟩ := file
    obtain ⟨middle, -, ran⟩ := (asks_look path).run_bind_of_ok rfl looked _
    rw [isDirectory, ran]
    split at answer
    · rfl
    · exact absurd (Except.ok.inj answer) (by decide)
  · intro node
    split <;> exact reads_pure _

/-- A file that can be read declares a module or none. -/
theorem exists_declaredModule (project : Project) {content : Content}
    (read : ((readContent path).run world).1 = .ok content) :
    ∃ found, ((project.declaredModule path).run world).1 = .ok found := by
  unfold declaredModule
  split
  · obtain ⟨middle, -, ran⟩ := (asks_readContent path).run_bind_of_ok rfl read _
    rw [ran]
    cases content with
    | binary bytes fault => exact ⟨none, rfl⟩
    | text text =>
      dsimp only
      split
      · exact ⟨_, rfl⟩
      · exact ⟨none, rfl⟩
  · exact ⟨none, rfl⟩

/-- Files that are no text or have no usable declaration do not keep a plan from being made. The
module of the new path, the graph and the new texts exist one after the other. -/
theorem exists_plan (findable : project.Findable world old new) (module : Text) :
    ∃ plan, ((project.plan old new module).run world).1 = .ok plan := by
  obtain ⟨newModule, resolved⟩ := findable.module
  obtain ⟨roots, listed, noStop, readable⟩ := findable.sources
  have built : (project.graph.run world).1 =
      .ok (.ofFiles (world.disk.declaredIn (scan world.disk project.extensions [] roots))) :=
    graph_ok_iff.mpr ⟨roots, listed, noStop, readable, rfl⟩
  obtain ⟨texts, worked⟩ := updatedTexts_of_declared
    (fun path dependent => declared_of_dependent built dependent) module newModule
  obtain ⟨first, disk, ran⟩ := (reads_resolve project new).run_bind_of_ok rfl resolved _
  rw [Project.plan, ran]
  obtain ⟨second, disk, ran⟩ := (reads_graph project).run_bind_of_ok disk built _
  rw [ran]
  obtain ⟨third, disk, ran⟩ := (reads_updatedTexts _ _ _).run_bind_of_ok disk worked _
  rw [ran]
  exact ⟨_, rfl⟩

/-- The end of a rename: the files that have been written are listed by their normal paths. -/
def listWritten (new : Text) (written : List Text) : Action (List Text) := do
  let paths ← Action.normalizeAll (Text.sortedSet (new :: written))
  Pure.pure (Text.sort paths)

/-- The plan is the one that is made for what the file declares: none, if it declares no module. -/
structure Planned (project : Project) (world : World) (old new : Text) (plan : Option MovePlan) :
    Prop where
  declared : ((project.declaredModule old).run world).1 = .ok (plan.map MovePlan.oldModule)
  made : ∀ made ∈ plan, ((project.plan old new made.oldModule).run world).1 = .ok made

/-- The rename of a file gets as far as to carry out its plan. By cases on whether the file declares
a module, and with it on whether there is a plan. -/
theorem renameFile_carriesOut (findable : project.Findable world old new) {start : World}
    (same : start.disk = world.disk) :
    ∃ ready plan, ready.disk = world.disk ∧ project.Planned world old new plan ∧
      (project.renameFile old new).run start = (project.carryOut old new plan).run ready := by
  obtain ⟨content, read⟩ := findable.content
  obtain ⟨found, declared⟩ := exists_declaredModule project read
  obtain ⟨first, disk, ran⟩ :=
    (reads_declaredModule project old).run_bind_of_ok same declared _
  rw [renameFile, ran]
  cases found with
  | none => exact ⟨first, none, disk, ⟨declared, by simp⟩, rfl⟩
  | some module =>
    obtain ⟨plan, planned⟩ := exists_plan findable module
    obtain ⟨second, disk, ran⟩ := (reads_plan project old new module).run_bind_of_ok disk planned
      project.execute
    obtain ⟨newModule, graph, texts, -, -, -, same⟩ := plan_ok planned
    obtain rfl : plan.oldModule = module := by rw [same]
    refine ⟨second, some plan, disk, ⟨declared, ?_⟩, ran⟩
    rintro _ ⟨⟩
    exact planned

/-- A rename goes through its arguments and its plan, and carries it out from the disk as it was.
Everything in front of the plan only reads. -/
theorem rename_carriesOut {oldPath newPath : Text} (oldPlain : Text.isBlank old = false)
    (newPlain : Text.isBlank new = false) (oldNormal : world.disk.normalize old = .ok oldPath)
    (newNormal : world.disk.normalize new = .ok newPath)
    (findable : project.Findable world oldPath newPath) :
    ∃ ready plan, ready.disk = world.disk ∧ project.Planned world oldPath newPath plan ∧
      (project.rename (some old) (some new)).run world =
        (project.carryOut oldPath newPath plan >>= listWritten newPath).run ready := by
  have argument {path : Text} (plain : Text.isBlank path = false) :
      ((pathArgument (some path)).run world).1 = .ok path := by
    rw [run_pathArgument plain]
  have normalized {path normal : Text} (same : world.disk.normalize path = .ok normal) :
      ((Action.normalize path).run world).1 = .ok normal := by
    rw [run_normalize same]
  obtain ⟨first, disk, ran⟩ :=
    (reads_pathArgument (some old)).run_bind_of_ok rfl (argument oldPlain) _
  rw [rename, ran]
  obtain ⟨second, disk, ran⟩ :=
    (reads_pathArgument (some new)).run_bind_of_ok disk (argument newPlain) _
  rw [ran]
  obtain ⟨third, disk, ran⟩ := (asks_normalize old).run_bind_of_ok disk (normalized oldNormal) _
  rw [ran]
  obtain ⟨fourth, disk, ran⟩ := (asks_normalize new).run_bind_of_ok disk (normalized newNormal) _
  rw [ran]
  obtain ⟨fifth, disk, ran⟩ := (asks_isDirectory oldPath).run_bind_of_ok disk
    (isDirectory_of_isFile findable.file) _
  rw [ran]
  simp only [Bool.false_eq_true, if_false]
  obtain ⟨sixth, disk, ran⟩ := (asks_isFile oldPath).run_bind_of_ok disk findable.file _
  rw [ran]
  simp only [if_true]
  obtain ⟨ready, plan, readyDisk, planned, carried⟩ := renameFile_carriesOut findable disk
  exact ⟨ready, plan, readyDisk, planned, (run_bind_congr carried _).trans rfl⟩

/-- Once a rename carries out its plan, the disk alone can stop it. -/
theorem isFault_carriedOut {oldPath newPath : Text} {ready : World} {plan : Option MovePlan}
    (disk : ready.disk = world.disk) (planned : project.Planned world oldPath newPath plan) :
    FailsWith (project.carryOut oldPath newPath plan >>= listWritten newPath) ready IsFault := by
  refine failsWith_bind (isFault_carryOut project _ _ fun made member => ?_)
    fun written finished _ => ?_
  · rw [disk]
    have declared := planned.declared
    rw [Option.mem_def.mp member] at declared
    exact found_of_declared declared (planned.made made member)
  · exact isFault_of_onlyFaults ((asks_normalizeAll _).faults.bind fun _ => onlyFaults_pure _)

/-- The rename of a file may be refused, which leaves the disk as it was. Nothing but the disk can
stop it otherwise. If what it has to come upon is there, it is not refused, whatever the files hold:
from the disk as it was it carries out the plan for the module that the file declares, if it
declares one, and then only the disk can stop it. All that can refuse comes before the first change
of the disk. What is found declared in the scan can be parsed again when the plan is made, as
nothing has been written in between. -/
theorem rename_refused {project : Project} {world : World} {old new : Option Text}
    (noDirectory : ∀ path normal, old = some path → world.disk.normalize path = .ok normal →
      ((isDirectory normal).run world).1 ≠ .ok true) :
    (∀ failure after, (project.rename old new).run world = (.error failure, after) →
      failure.isRefusal = true ∧ after.disk = world.disk ∨ failure.isFault = true) ∧
    ∀ oldGiven newGiven oldPath newPath, old = some oldGiven → new = some newGiven →
      Text.isBlank oldGiven = false → Text.isBlank newGiven = false →
      world.disk.normalize oldGiven = .ok oldPath → world.disk.normalize newGiven = .ok newPath →
      project.Findable world oldPath newPath →
      (∃ ready plan, ready.disk = world.disk ∧ project.Planned world oldPath newPath plan ∧
        (project.rename old new).run world =
          (project.carryOut oldPath newPath plan >>= listWritten newPath).run ready) ∧
      ∀ failure after, (project.rename old new).run world = (.error failure, after) →
        failure.isFault = true := by
  constructor
  · intro failure after run
    exact (spares_rename noDirectory failure after run).symm
  · rintro oldGiven newGiven oldPath newPath rfl rfl oldPlain newPlain oldNormal newNormal findable
    obtain ⟨ready, plan, disk, planned, carried⟩ :=
      rename_carriesOut oldPlain newPlain oldNormal newNormal findable
    refine ⟨⟨ready, plan, disk, planned, carried⟩, fun failure after run => ?_⟩
    rw [carried] at run
    exact isFault_carriedOut disk planned failure after run

end Stopping

/-- A disk with a source file of a module, one that is no text, and one that cannot be read as
forms. -/
def unusable : World where
  disk :=
    ⟨⟨[(["r".toList], .directory),
      (["r".toList, "a.clj".toList], .file (.text "(ns a)".toList)),
      (["r".toList, "b.clj".toList], .file (.ofBytes [255])),
      (["r".toList, "c.clj".toList], .file (.text "(ns".toList))], by decide⟩,
      .ofLocation []⟩
  locked := []
  events := []

/-- The rename of the first file to a path outside the source root. -/
def unusableRefused : Except Failure (List Text) × World :=
  (oneRoot.rename (some "/r/a.clj".toList) (some "/q/a.clj".toList)).run unusable

/-- A new path outside the roots is refused with the disk as it was. A file that is no text has no
module, and its rename comes down to moving it. -/
theorem rename_refused_unusable :
    unusableRefused.1 = .error (.resolution (.outside "/q/a.clj".toList)) ∧
      unusableRefused.2.disk = unusable.disk ∧
      ∃ ready plan, ready.disk = unusable.disk ∧
        oneRoot.Planned unusable "/r/b.clj".toList "/r/d.clj".toList plan ∧
        (oneRoot.rename (some "/r/b.clj".toList) (some "/r/d.clj".toList)).run unusable =
          (oneRoot.carryOut "/r/b.clj".toList "/r/d.clj".toList plan >>=
            listWritten "/r/d.clj".toList).run ready := by
  have refused : unusableRefused.1 = .error (.resolution (.outside "/q/a.clj".toList)) := by
    decide +kernel
  have run : unusableRefused =
      (.error (.resolution (.outside "/q/a.clj".toList)), unusableRefused.2) := by
    rw [← refused]
  have noDirectory (path : Text) (file : ((isDirectory path).run unusable).1 = .ok false)
      (same : unusable.disk.normalize path = .ok path) : ∀ other normal, some path = some other →
      unusable.disk.normalize other = .ok normal →
      ((isDirectory normal).run unusable).1 ≠ .ok true := by
    rintro other normal ⟨⟩ normalized
    rw [← Except.ok.inj (same.symm.trans normalized), file]
    simp
  have findable : oneRoot.Findable unusable "/r/b.clj".toList "/r/d.clj".toList := by
    have scanned : scan unusable.disk oneRoot.extensions [] ["/r".toList] =
        [.file "/r/a.clj".toList, .file "/r/b.clj".toList, .file "/r/c.clj".toList] := by
      decide +kernel
    refine ⟨by decide +kernel, ⟨.ofBytes [255], by decide +kernel⟩, ⟨"d".toList, by decide +kernel⟩,
      ["/r".toList], by decide +kernel, ?_, ?_⟩
    · rw [scanned]
      simp
    · intro path member
      rw [scanned] at member
      simp only [List.mem_cons, ScanStep.file.injEq, List.not_mem_nil, or_false] at member
      obtain rfl | rfl | rfl := member
      · exact ⟨.text "(ns a)".toList, by decide +kernel⟩
      · exact ⟨.ofBytes [255], by decide +kernel⟩
      · exact ⟨.text "(ns".toList, by decide +kernel⟩
  obtain ⟨stopped, -⟩ := rename_refused (noDirectory "/r/a.clj".toList (by decide +kernel)
    (by decide +kernel))
  obtain ⟨-, reached⟩ := rename_refused (noDirectory "/r/b.clj".toList (by decide +kernel)
    (by decide +kernel))
  obtain ⟨-, kept⟩ | fault := stopped _ _ run
  · exact ⟨refused, kept, (reached _ _ _ _ rfl rfl (by decide +kernel) (by decide +kernel)
      (by decide +kernel) (by decide +kernel) findable).1⟩
  · exact absurd fault (by decide)

end Relocate.Project
