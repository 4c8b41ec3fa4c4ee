import Mathlib.Data.List.Induction
import Relocate.Proofs.Actions
import Relocate.Proofs.OrderedMaps

/-!
# What a dependency graph says

The graph of a project is made of the declarations of its source files, and of nothing else. A file
depends directly on a module exactly if its own declaration refers to that module, whether or not
other files declare the same module as it does.
-/
namespace Relocate

namespace ModuleGraph

/-- The graph of some files with their declarations. -/
def ofFiles (files : List (Text × Declaration)) : ModuleGraph :=
  files.foldl (fun graph file => graph.addFile file.1 file.2) .empty

variable {files : List (Text × Declaration)}

/-- The last file is added to the graph of the others. -/
theorem ofFiles_concat (file : Text × Declaration) :
    ofFiles (files ++ [file]) = (ofFiles files).addFile file.1 file.2 := by
  simp [ofFiles]

/-- The files of a module are those that declare it. By induction on the files from the last one,
which is added to the paths of its module. -/
theorem mem_modulePaths {path module : Text} :
    path ∈ (ofFiles files).modulePaths.members module ↔
      ∃ declaration, (path, declaration) ∈ files ∧ declaration.module = module := by
  induction files using List.reverseRecOn with
  | nil => simp [ofFiles, empty, OrderedMap.members, OrderedMap.empty, OrderedMap.get?]
  | append_singleton files file inductionHypothesis =>
    rw [ofFiles_concat, addFile, OrderedMap.members_insert]
    constructor
    · intro member
      split at member
      · rename_i same
        obtain earlier | last := List.mem_append.mp member
        · rw [← same] at earlier
          obtain ⟨declaration, listed, declares⟩ := inductionHypothesis.mp earlier
          exact ⟨declaration, List.mem_append_left _ listed, declares⟩
        · rw [List.mem_singleton.mp last]
          exact ⟨file.2, by simp, same.symm⟩
      · obtain ⟨declaration, listed, declares⟩ := inductionHypothesis.mp member
        exact ⟨declaration, List.mem_append_left _ listed, declares⟩
    · rintro ⟨declaration, listed, declares⟩
      obtain earlier | last := List.mem_append.mp listed
      · have inside := inductionHypothesis.mpr ⟨declaration, earlier, declares⟩
        split
        · rename_i same
          rw [same] at inside
          exact List.mem_append_left _ inside
        · exact inside
      · rw [← List.mem_singleton.mp last]
        rw [if_pos declares.symm]
        simp

/-- What a file depends on is what its declaration says, if no path stands twice. -/
theorem members_fileDependencies (distinct : (files.map Prod.fst).Nodup) {path : Text}
    {declaration : Declaration} (listed : (path, declaration) ∈ files) :
    (ofFiles files).fileDependencies.members path = declaration.dependencies := by
  induction files using List.reverseRecOn with
  | nil => simp at listed
  | append_singleton files file inductionHypothesis =>
    rw [List.map_append, List.nodup_append] at distinct
    rw [ofFiles_concat, addFile, OrderedMap.members_insert]
    obtain earlier | last := List.mem_append.mp listed
    · have apart : path ≠ file.1 :=
        distinct.2.2 path (List.mem_map_of_mem earlier) file.1 (by simp)
      rw [if_neg apart]
      exact inductionHypothesis distinct.1 earlier
    · rw [← List.mem_singleton.mp last, if_pos rfl]

/-- What a module depends on is what its files depend on. By induction on the files from the last
one. -/
theorem mem_dependencies {module target : Text} :
    target ∈ (ofFiles files).dependencies.members module ↔
      ∃ file ∈ files, file.2.module = module ∧ target ∈ file.2.dependencies := by
  induction files using List.reverseRecOn with
  | nil => simp [ofFiles, empty, OrderedMap.members, OrderedMap.empty, OrderedMap.get?]
  | append_singleton files file inductionHypothesis =>
    rw [ofFiles_concat, addFile, OrderedMap.mem_addMembers, inductionHypothesis]
    constructor
    · rintro (⟨other, listed, refers⟩ | ⟨declares, refers⟩)
      · exact ⟨other, List.mem_append_left _ listed, refers⟩
      · exact ⟨file, by simp, declares.symm, refers⟩
    · rintro ⟨other, listed, declares, refers⟩
      obtain earlier | last := List.mem_append.mp listed
      · exact .inl ⟨other, earlier, declares, refers⟩
      · rw [← List.mem_singleton.mp last]
        exact .inr ⟨declares.symm, refers⟩

/-- The module that is recorded for a file is the one that the file declares. -/
theorem declares_of_fileModules {path module : Text}
    (recorded : (ofFiles files).fileModules.get? path = some module) :
    ∃ declaration, (path, declaration) ∈ files ∧ declaration.module = module := by
  have entry := OrderedMap.mem_entries_iff.mpr recorded
  obtain ⟨⟨other, paths⟩, listed, member⟩ :=
    List.mem_flatMap.mp (OrderedMap.mem_of_mem_ofList entry)
  obtain ⟨_, inside, same⟩ := List.mem_map.mp member
  obtain ⟨rfl, rfl⟩ := Prod.mk.inj same
  refine mem_modulePaths.mp ?_
  have found := OrderedMap.mem_entries_iff.mp listed
  rw [OrderedMap.members, found]
  exact inside

/-- The files that depend on a module are those whose declarations refer to it. A dependent module
is looked up first and then its files are filtered by what they themselves refer to. -/
theorem mem_dependentsOf (distinct : (files.map Prod.fst).Nodup) {path module : Text} :
    path ∈ (ofFiles files).dependentsOf module ↔
      ∃ declaration, (path, declaration) ∈ files ∧ module ∈ declaration.dependencies := by
  rw [dependentsOf, (Text.sort_perm _).mem_iff, List.mem_flatMap]
  constructor
  · rintro ⟨dependent, -, member⟩
    obtain ⟨inside, refers⟩ := List.mem_filter.mp member
    obtain ⟨declaration, listed, -⟩ := mem_modulePaths.mp inside
    rw [members_fileDependencies distinct listed] at refers
    exact ⟨declaration, listed, by simpa using refers⟩
  · rintro ⟨declaration, listed, refers⟩
    refine ⟨declaration.module, ?_, List.mem_filter.mpr ⟨?_, ?_⟩⟩
    · simpa [dependents] using mem_dependencies.mpr ⟨_, listed, rfl, refers⟩
    · exact mem_modulePaths.mpr ⟨declaration, listed, rfl⟩
    · rw [members_fileDependencies distinct listed]
      simpa using refers

end ModuleGraph

/-- The declaration of the file at a path, if it has a usable one. -/
def Disk.declarationAt (disk : Disk) (path : Text) : Option Declaration :=
  match disk.read path with
  | .ok (.text text) =>
    match Declaration.parse text with
    | .ok declaration => some declaration
    | .error _ => none
  | _ => none

/-- The files of a scan that have usable declarations. -/
def Disk.declaredIn (disk : Disk) (steps : List ScanStep) : List (Text × Declaration) :=
  (steps.filterMap ScanStep.file?).filterMap fun path =>
    (disk.declarationAt path).map fun declaration => (path, declaration)

/-- What a path declares is the declaration of the text that is read there. -/
theorem declarationAt_eq_some_iff {disk : Disk} {path : Text} {declaration : Declaration} :
    disk.declarationAt path = some declaration ↔
      ∃ text, disk.read path = .ok (.text text) ∧ Declaration.parse text = .ok declaration := by
  rw [Disk.declarationAt]
  constructor
  · intro declared
    split at declared
    · rename_i text read
      split at declared
      · rename_i parsed
        rw [← Option.some.inj declared]
        exact ⟨text, read, parsed⟩
      · simp at declared
    · simp at declared
  · rintro ⟨text, read, parsed⟩
    simp [read, parsed]

/-- The files of a scan are the steps that name one. -/
theorem mem_files_iff {steps : List ScanStep} {path : Text} :
    path ∈ steps.filterMap ScanStep.file? ↔ .file path ∈ steps := by
  rw [List.mem_filterMap]
  constructor
  · rintro ⟨step, member, file⟩
    cases step with
    | file other => rwa [← Option.some.inj file]
    | missingRoot root => simp [ScanStep.file?] at file
    | stop error => simp [ScanStep.file?] at file
  · intro member
    exact ⟨_, member, rfl⟩

/-- What a scan finds declared are the declarations of its files. -/
theorem mem_declaredIn {disk : Disk} {steps : List ScanStep} {path : Text}
    {declaration : Declaration} :
    (path, declaration) ∈ disk.declaredIn steps ↔
      .file path ∈ steps ∧ disk.declarationAt path = some declaration := by
  rw [Disk.declaredIn, List.mem_filterMap]
  constructor
  · rintro ⟨other, member, declared⟩
    obtain ⟨found, usable, same⟩ := Option.map_eq_some_iff.mp declared
    obtain ⟨rfl, rfl⟩ := Prod.mk.inj same
    exact ⟨mem_files_iff.mp member, usable⟩
  · rintro ⟨member, declared⟩
    exact ⟨path, mem_files_iff.mpr member, by rw [declared]; rfl⟩

/-- A file that is scanned once is found to declare something once at most. -/
theorem nodup_declaredIn {disk : Disk} {steps : List ScanStep}
    (distinct : (steps.filterMap ScanStep.file?).Nodup) :
    ((disk.declaredIn steps).map Prod.fst).Nodup := by
  refine distinct.sublist ?_
  rw [Disk.declaredIn]
  generalize steps.filterMap ScanStep.file? = paths
  induction paths with
  | nil => exact .slnil
  | cons path paths inductionHypothesis =>
    rw [List.filterMap_cons]
    cases disk.declarationAt path with
    | none => exact inductionHypothesis.cons path
    | some declaration => exact inductionHypothesis.cons_cons path

end Relocate
