import Relocate.Proofs.Graph

/-!
# Scans, and the graphs they give

A scan comes upon every source file below the roots once, by its normalized path. If no root is too
long to be looked for and every file can be read, the graph is built, and it is that of the files
with usable declarations.
-/
namespace Relocate

section Scan

variable {disk : Disk} {extensions met roots : List Text} {path : Text}

/-- What the first root adds to a scan. -/
theorem scan_cons_cases (disk : Disk) (extensions met : List Text) (root : Text)
    (roots : List Text) :
    (∃ error, disk.look (Path.tidy root) = .error error ∧
      scan disk extensions met (root :: roots) = [.stop error]) ∨
    (disk.look (Path.tidy root) = .ok (some .directory) ∧
      ∃ fresh : List Text, fresh.Nodup ∧
        (∀ path, path ∈ fresh ↔ path ∈ (disk.walk root).map (Path.normalize ['/']) ∧
          isSource extensions path = true ∧ path ∉ met) ∧
        scan disk extensions met (root :: roots) =
          fresh.map .file ++ scan disk extensions (met ++ fresh) roots) ∨
    ((∀ error, disk.look (Path.tidy root) ≠ .error error) ∧
      disk.look (Path.tidy root) ≠ .ok (some .directory) ∧
      scan disk extensions met (root :: roots) =
        .missingRoot root :: scan disk extensions met roots) := by
  rw [scan]
  split
  · rename_i error failed
    exact .inl ⟨error, failed, rfl⟩
  · rename_i found
    refine .inr (.inl ⟨found, _, Text.nodup_distinct _, fun path => ?_, rfl⟩)
    rw [Text.mem_distinct, List.mem_filter]
    simp
  · rename_i other noDirectory found
    refine .inr (.inr ⟨fun error failed => ?_, fun directory => ?_, rfl⟩)
    · rw [failed] at found
      simp at found
    · rw [directory] at found
      exact noDirectory (Except.ok.inj found).symm

/-- No file is met twice. By induction on the roots: what a root adds is distinct and has not been
met. -/
theorem nodup_scan (disk : Disk) (extensions met roots : List Text) :
    ((scan disk extensions met roots).filterMap ScanStep.file?).Nodup ∧
      ∀ path ∈ met, .file path ∉ scan disk extensions met roots := by
  induction roots generalizing met with
  | nil => exact ⟨.nil, fun _ _ => by simp [scan]⟩
  | cons root roots inductionHypothesis =>
    obtain ⟨error, -, steps⟩ | ⟨-, fresh, distinct, members, steps⟩ | ⟨-, -, steps⟩ :=
      scan_cons_cases disk extensions met root roots
    · rw [steps]
      exact ⟨List.nodup_nil, fun _ _ => by simp⟩
    · obtain ⟨later, apart⟩ := inductionHypothesis (met ++ fresh)
      have files : (fresh.map ScanStep.file).filterMap ScanStep.file? = fresh := by
        rw [List.filterMap_map]
        exact List.filterMap_some
      rw [steps, List.filterMap_append, files]
      constructor
      · refine List.nodup_append.mpr ⟨distinct, later, fun path here other there => ?_⟩
        rintro rfl
        exact apart path (List.mem_append_right _ here) (mem_files_iff.mp there)
      · intro path old member
        obtain here | there := List.mem_append.mp member
        · obtain ⟨other, inside, same⟩ := List.mem_map.mp here
          obtain rfl := ScanStep.file.inj same
          exact ((members other).mp inside).2.2 old
        · exact apart path (List.mem_append_left _ old) there
    · obtain ⟨later, apart⟩ := inductionHypothesis met
      rw [steps]
      constructor
      · exact later
      · intro path old member
        obtain here | there := List.mem_cons.mp member
        · simp at here
        · exact apart path old there

/-- Every file of a scan is a source file below one of the roots. By induction on the roots, with
`scan_cons_cases` for the first one. -/
theorem root_of_mem_scan (member : .file path ∈ scan disk extensions met roots) :
    isSource extensions path = true ∧ ∃ root ∈ roots,
      disk.look (Path.tidy root) = .ok (some .directory) ∧
        path ∈ (disk.walk root).map (Path.normalize ['/']) := by
  induction roots generalizing met with
  | nil => simp [scan] at member
  | cons root roots inductionHypothesis =>
    obtain ⟨error, -, steps⟩ | ⟨found, fresh, -, members, steps⟩ | ⟨-, -, steps⟩ :=
      scan_cons_cases disk extensions met root roots
    · rw [steps] at member
      simp at member
    · rw [steps] at member
      obtain here | there := List.mem_append.mp member
      · obtain ⟨other, inside, same⟩ := List.mem_map.mp here
        obtain rfl := ScanStep.file.inj same
        obtain ⟨walked, source, -⟩ := (members other).mp inside
        exact ⟨source, root, by simp, found, walked⟩
      · obtain ⟨source, other, listed, below⟩ := inductionHypothesis there
        exact ⟨source, other, List.mem_cons_of_mem _ listed, below⟩
    · rw [steps] at member
      obtain here | there := List.mem_cons.mp member
      · simp at here
      · obtain ⟨source, other, listed, below⟩ := inductionHypothesis there
        exact ⟨source, other, List.mem_cons_of_mem _ listed, below⟩

/-- Every source file below one of the roots is met, unless the scan stops. By induction on the
roots: what the first root does not add has been met before or is below a later one. -/
theorem mem_scan_of_root {root : Text} (listed : root ∈ roots)
    (noStop : ∀ error, .stop error ∉ scan disk extensions met roots)
    (found : disk.look (Path.tidy root) = .ok (some .directory))
    (walked : path ∈ (disk.walk root).map (Path.normalize ['/']))
    (source : isSource extensions path = true) :
    path ∈ met ∨ .file path ∈ scan disk extensions met roots := by
  induction roots generalizing met with
  | nil => simp at listed
  | cons first roots inductionHypothesis =>
    obtain ⟨error, -, steps⟩ | ⟨-, fresh, -, members, steps⟩ | ⟨-, missing, steps⟩ :=
      scan_cons_cases disk extensions met first roots
    · rw [steps] at noStop
      exact absurd (by simp) (noStop error)
    · rw [steps] at noStop ⊢
      by_cases old : path ∈ met
      · exact .inl old
      · refine .inr (List.mem_append.mpr ?_)
        by_cases inside : path ∈ fresh
        · exact .inl (List.mem_map_of_mem inside)
        · obtain rfl | later := List.mem_cons.mp listed
          · exact absurd ((members path).mpr ⟨walked, source, old⟩) inside
          · have rest := inductionHypothesis later fun error stop =>
              noStop error (List.mem_append_right _ stop)
            obtain before | after := rest
            · obtain before | here := List.mem_append.mp before
              · exact absurd before old
              · exact absurd here inside
            · exact .inr after
    · rw [steps] at noStop ⊢
      obtain rfl | later := List.mem_cons.mp listed
      · exact absurd found missing
      · have rest := inductionHypothesis later fun error stop =>
          noStop error (List.mem_cons_of_mem _ stop)
        exact rest.imp id (List.mem_cons_of_mem _)

/-- A scan stops at a root that cannot be looked for. By induction on the roots, with
`scan_cons_cases` for the first one. -/
theorem root_of_stop {error : OsError} (stops : .stop error ∈ scan disk extensions met roots) :
    ∃ root ∈ roots, disk.look (Path.tidy root) = .error error := by
  induction roots generalizing met with
  | nil => simp [scan] at stops
  | cons root roots inductionHypothesis =>
    obtain ⟨other, failed, steps⟩ | ⟨-, fresh, -, -, steps⟩ | ⟨-, -, steps⟩ :=
      scan_cons_cases disk extensions met root roots
    · rw [steps] at stops
      obtain rfl := ScanStep.stop.inj (List.mem_singleton.mp stops)
      exact ⟨root, by simp, failed⟩
    · rw [steps] at stops
      obtain here | there := List.mem_append.mp stops
      · simp at here
      · obtain ⟨other, listed, failed⟩ := inductionHypothesis there
        exact ⟨other, List.mem_cons_of_mem _ listed, failed⟩
    · rw [steps] at stops
      obtain here | there := List.mem_cons.mp stops
      · simp at here
      · obtain ⟨other, listed, failed⟩ := inductionHypothesis there
        exact ⟨other, List.mem_cons_of_mem _ listed, failed⟩

/-- A scan that does not stop can look for all roots. By induction on the roots: at such a root the
scan would stop. -/
theorem not_error_of_noStop {root : Text} (listed : root ∈ roots)
    (noStop : ∀ error, .stop error ∉ scan disk extensions met roots) (error : OsError) :
    disk.look (Path.tidy root) ≠ .error error := by
  induction roots generalizing met with
  | nil => simp at listed
  | cons first roots inductionHypothesis =>
    obtain ⟨other, -, steps⟩ | ⟨found, fresh, -, -, steps⟩ | ⟨fine, -, steps⟩ :=
      scan_cons_cases disk extensions met first roots
    · rw [steps] at noStop
      exact absurd (by simp) (noStop other)
    · rw [steps] at noStop
      obtain rfl | later := List.mem_cons.mp listed
      · simp [found]
      · exact inductionHypothesis later fun other stop =>
          noStop other (List.mem_append_right _ stop)
    · rw [steps] at noStop
      obtain rfl | later := List.mem_cons.mp listed
      · exact fine error
      · exact inductionHypothesis later fun other stop =>
          noStop other (List.mem_cons_of_mem _ stop)

/-- The files of a scan have absolute paths. -/
theorem isAbsolute_of_mem_scan (member : .file path ∈ scan disk extensions met roots) :
    Path.isAbsolute path = true := by
  obtain ⟨-, root, -, -, walked⟩ := root_of_mem_scan member
  obtain ⟨below, -, rfl⟩ := List.mem_map.mp walked
  exact Path.isAbsolute_normalize rfl below

end Scan

section Building

variable {project : Project} {graph result : ModuleGraph} {world after : World}
  {steps : List ScanStep} {path : Text}

open Action

/-- Listing what is to be scanned only asks the disk. -/
theorem asks_scanSteps (project : Project) : Asks project.scanSteps :=
  (asks_roots project.roots).bind fun roots => asks_told (scan · project.extensions [] roots)

/-- A scan starts from the roots as they are listed. -/
theorem scanSteps_ok_iff :
    (project.scanSteps.run world).1 = .ok steps ↔
      ∃ roots, (project.roots.list.run world).1 = .ok roots ∧
        scan world.disk project.extensions [] roots = steps := by
  rw [Project.scanSteps, (asks_roots _).value_bind_ok_iff fun roots =>
    (asks_told (scan · project.extensions [] roots)).toReads]
  refine exists_congr fun roots => and_congr_right fun _ => ?_
  exact ⟨Except.ok.inj, congrArg Except.ok⟩

/-- Adding a file to the graph only asks: a file that cannot be parsed or decoded is recorded and
does not fail. -/
theorem asks_addSource (graph : ModuleGraph) (path : Text) :
    Asks (Project.addSource graph path) := by
  refine (asks_readContent path).bind fun content => ?_
  cases content with
  | binary bytes fault => exact (asks_emit _).bind fun _ => asks_pure _
  | text text =>
    simp only
    split
    · exact (asks_emit _).bind fun _ => asks_pure _
    · refine Asks.bind ?_ fun _ => asks_pure _
      unfold Project.warnOfTwin
      split
      · exact asks_pure _
      · split
        · exact asks_emit _
        · exact asks_pure _

/-- Scanning file after file only asks. By induction on the steps. -/
theorem asks_addSteps (graph : ModuleGraph) (steps : List ScanStep) :
    Asks (Project.addSteps graph steps) := by
  induction steps generalizing graph with
  | nil => exact asks_pure graph
  | cons step steps inductionHypothesis =>
    cases step with
    | missingRoot root => exact (asks_emit _).bind fun _ => inductionHypothesis graph
    | file path => exact (asks_addSource graph path).bind fun next => inductionHypothesis next
    | stop error => exact asks_fail rfl

/-- No file keeps the dependency graph from being built, unless it cannot be read at all. -/
theorem asks_graph (project : Project) : Asks project.graph := by
  refine (asks_scanSteps project).bind fun steps => ?_
  refine (asks_addSteps _ steps).bind fun graph => ?_
  exact (asks_emit _).bind fun _ => asks_pure _

/-- Building the graph leaves the disk as it is. -/
theorem reads_graph (project : Project) : Reads project.graph := (asks_graph project).toReads

/-- The graph with the declaration of one more file, if it has a usable one. -/
def ModuleGraph.addDeclared (disk : Disk) (graph : ModuleGraph) (path : Text) : ModuleGraph :=
  match disk.declarationAt path with
  | some declaration => graph.addFile path declaration
  | none => graph

/-- A readable file is added with its declaration. By cases on what is read and on how it is parsed;
a warning about a second file changes no result. -/
theorem addSource_ok_iff :
    ((Project.addSource graph path).run world).1 = .ok result ↔
      (∃ content, ((readContent path).run world).1 = .ok content) ∧
        result = graph.addDeclared world.disk path := by
  rw [Project.addSource, run_bind]
  generalize ran : (readContent path).run world = read
  obtain ⟨given, middle⟩ := read
  cases given with
  | error failure => simp
  | ok content =>
    have held : world.disk.read path = .ok content := run_readContent_ok (by rw [ran])
    have exact : ∃ other, (Except.ok content : Except Failure Content) = .ok other := ⟨_, rfl⟩
    simp only [exact, true_and]
    rw [ModuleGraph.addDeclared, Disk.declarationAt, held]
    cases content with
    | binary bytes fault =>
      constructor
      · intro same
        exact (Except.ok.inj same).symm
      · rintro rfl
        rfl
    | text text =>
      simp only
      cases Declaration.parse text with
      | error error =>
        constructor
        · intro same
          exact (Except.ok.inj same).symm
        · rintro rfl
          rfl
      | ok declaration =>
        have warned : ∃ other, (Project.warnOfTwin graph declaration.module path).run middle =
            (.ok (), other) := by
          unfold Project.warnOfTwin
          split
          · exact ⟨_, rfl⟩
          · split <;> exact ⟨_, rfl⟩
        obtain ⟨other, warned⟩ := warned
        simp only [run_bind, warned]
        constructor
        · intro same
          exact (Except.ok.inj same).symm
        · rintro rfl
          rfl

/-- A graph is built exactly if the scan does not stop and all its files can be read, and then it is
that of the declarations. -/
theorem addSteps_ok_iff :
    ((Project.addSteps graph steps).run world).1 = .ok result ↔
      (∀ error, .stop error ∉ steps) ∧
      (∀ path, .file path ∈ steps → ∃ content, ((readContent path).run world).1 = .ok content) ∧
      result = (world.disk.declaredIn steps).foldl
        (fun graph file => graph.addFile file.1 file.2) graph := by
  induction steps generalizing graph world with
  | nil =>
    constructor
    · intro same
      exact ⟨by simp, by simp, (Except.ok.inj same).symm⟩
    · rintro ⟨-, -, rfl⟩
      rfl
  | cons step steps inductionHypothesis =>
    cases step with
    | stop error =>
      constructor
      · intro same
        simp [Project.addSteps] at same
      · rintro ⟨noStop, -⟩
        exact absurd (by simp) (noStop error)
    | missingRoot root =>
      rw [Project.addSteps, (reads_emit _).value_bind_ok_iff
        fun _ => (asks_addSteps graph steps).toReads]
      have files : world.disk.declaredIn (.missingRoot root :: steps) =
          world.disk.declaredIn steps := rfl
      rw [files]
      simpa using inductionHypothesis
    | file path =>
      rw [Project.addSteps,
        (asks_addSource graph path).value_bind_ok_iff
          fun next => (asks_addSteps next steps).toReads]
      have files (start : ModuleGraph) : (world.disk.declaredIn (.file path :: steps)).foldl
          (fun graph file => graph.addFile file.1 file.2) start =
          (world.disk.declaredIn steps).foldl (fun graph file => graph.addFile file.1 file.2)
            (start.addDeclared world.disk path) := by
        rw [Disk.declaredIn, Disk.declaredIn, ModuleGraph.addDeclared]
        simp only [List.filterMap_cons, ScanStep.file?]
        cases world.disk.declarationAt path <;> rfl
      rw [files]
      constructor
      · rintro ⟨next, added, rest⟩
        obtain ⟨readable, rfl⟩ := addSource_ok_iff.mp added
        obtain ⟨noStop, allReadable, rfl⟩ := inductionHypothesis.mp rest
        refine ⟨by simpa using noStop, fun other member => ?_, rfl⟩
        obtain here | there := List.mem_cons.mp member
        · rw [ScanStep.file.inj here]
          exact readable
        · exact allReadable other there
      · rintro ⟨noStop, readable, rfl⟩
        refine ⟨_, addSource_ok_iff.mpr ⟨readable path (by simp), rfl⟩, ?_⟩
        refine inductionHypothesis.mpr ⟨?_, ?_, rfl⟩
        · intro error stop
          exact noStop error (List.mem_cons_of_mem _ stop)
        · intro other member
          exact readable other (List.mem_cons_of_mem _ member)

/-- The graph of a project is that of the declarations that a scan comes upon. It is built exactly
if the scan does not stop and all its files can be read. -/
theorem graph_ok_iff :
    (project.graph.run world).1 = .ok result ↔
      ∃ roots, (project.roots.list.run world).1 = .ok roots ∧
        (∀ error, .stop error ∉ scan world.disk project.extensions [] roots) ∧
        (∀ path, .file path ∈ scan world.disk project.extensions [] roots →
          ∃ content, ((readContent path).run world).1 = .ok content) ∧
        result =
          .ofFiles (world.disk.declaredIn (scan world.disk project.extensions [] roots)) := by
  have finished (graph : ModuleGraph) : Reads (do
      emit (.graphBuilt graph.moduleFiles.size)
      Pure.pure graph) := (reads_emit _).bind fun _ => reads_pure _
  rw [Project.graph, (asks_scanSteps project).value_bind_ok_iff
    fun steps => (asks_addSteps _ steps).toReads.bind finished]
  have built (steps : List ScanStep) : ((do
      let graph ← Project.addSteps .empty steps
      emit (.graphBuilt graph.moduleFiles.size)
      Pure.pure graph : Action ModuleGraph).run world).1 = .ok result ↔
      ((Project.addSteps .empty steps).run world).1 = .ok result := by
    rw [(asks_addSteps _ steps).value_bind_ok_iff finished]
    constructor
    · rintro ⟨graph, added, same⟩
      rw [added]
      exact same
    · intro added
      exact ⟨result, added, rfl⟩
  simp only [built, addSteps_ok_iff, scanSteps_ok_iff]
  constructor
  · rintro ⟨steps, ⟨roots, listed, rfl⟩, noStop, readable, same⟩
    exact ⟨roots, listed, noStop, readable, same⟩
  · rintro ⟨roots, listed, noStop, readable, same⟩
    exact ⟨_, ⟨roots, listed, rfl⟩, noStop, readable, same⟩

/-- The source files of a project are those that a scan comes upon. -/
theorem mem_sourceFiles {roots files : List Text}
    (listed : (project.roots.list.run world).1 = .ok roots)
    (sources : (project.sourceFiles.run world).1 = .ok files) :
    path ∈ files ↔ .file path ∈ scan world.disk project.extensions [] roots := by
  obtain ⟨steps, middle, scanned, -, run⟩ :=
    (asks_scanSteps project).run_bind_ok rfl (Prod.ext sources rfl)
  obtain ⟨done, last, -, run⟩ := run_bind_ok_iff.mp run
  obtain ⟨same, -⟩ := Prod.mk.inj run
  obtain rfl := Except.ok.inj same
  obtain ⟨others, given, rfl⟩ := scanSteps_ok_iff.mp scanned
  obtain rfl := Except.ok.inj (listed.symm.trans given)
  exact mem_files_iff

/-- The files that depend on a module, in the graph of a project. The graph is built from the
declarations of the files that the scan meets, each of which is met once. -/
theorem mem_dependentsOf_graph {roots : List Text} {module : Text}
    (listed : (project.roots.list.run world).1 = .ok roots)
    (built : (project.graph.run world).1 = .ok graph) :
    path ∈ graph.dependentsOf module ↔
      .file path ∈ scan world.disk project.extensions [] roots ∧
        ∃ declaration, world.disk.declarationAt path = some declaration ∧
          module ∈ declaration.dependencies := by
  obtain ⟨others, same, -, -, rfl⟩ := graph_ok_iff.mp built
  obtain rfl := Except.ok.inj (listed.symm.trans same)
  rw [ModuleGraph.mem_dependentsOf (nodup_declaredIn (nodup_scan _ _ _ _).1)]
  constructor
  · rintro ⟨declaration, member, refers⟩
    obtain ⟨met, declared⟩ := mem_declaredIn.mp member
    exact ⟨met, declaration, declared, refers⟩
  · rintro ⟨met, declaration, declared, refers⟩
    exact ⟨declaration, mem_declaredIn.mpr ⟨met, declared⟩, refers⟩

end Building

end Relocate
