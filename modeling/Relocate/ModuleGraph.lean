import Relocate.Project
import Relocate.OrderedMap

/-!
# Dependency graphs

The dependency graph of a project says which files declare which modules and what each file depends
on. Several files may declare one module, as the twins of a module for two platforms do.

Building the graph scans the source files below the roots. A file that is no text or has no usable
declaration is passed over.
-/
namespace Relocate

/-- The set of texts under a key, empty if there is none. -/
def OrderedMap.members (map : OrderedMap (List Text)) (key : Text) : List Text :=
  (map.get? key).getD []

/-- The map with more members under a key. -/
def OrderedMap.addMembers (map : OrderedMap (List Text)) (key : Text) (members : List Text) :
    OrderedMap (List Text) :=
  map.insert key (Text.sortedSet (map.members key ++ members))

/-- The converse of a relation: whatever is related to something has that under its key. -/
def converse (relation : OrderedMap (List Text)) : OrderedMap (List Text) :=
  (relation.entries.flatMap fun entry => entry.2.map fun target => (target, entry.1)).foldl
    (fun map pair => map.addMembers pair.1 [pair.2]) .empty

/-- Modules, the files that declare them, and what depends on what. -/
structure ModuleGraph where
  /-- The last file that declares each module. -/
  moduleFiles : OrderedMap Text
  /-- All files that declare each module, in the order of the scan. -/
  modulePaths : OrderedMap (List Text)
  /-- The set of modules that each file depends on. -/
  fileDependencies : OrderedMap (List Text)
  /-- The set of modules that the files of each module depend on. -/
  dependencies : OrderedMap (List Text)

namespace ModuleGraph

def empty : ModuleGraph := ⟨.empty, .empty, .empty, .empty⟩

/-- The modules that depend on each module. -/
def dependents (graph : ModuleGraph) : OrderedMap (List Text) := converse graph.dependencies

/-- The module that each file declares. -/
def fileModules (graph : ModuleGraph) : OrderedMap Text :=
  .ofList (graph.modulePaths.entries.flatMap fun entry => entry.2.map fun path => (path, entry.1))

/-- The files that depend directly on a module, in order. Each file of a dependent module is looked
at on its own. -/
def dependentsOf (graph : ModuleGraph) (module : Text) : List Text :=
  Text.sort ((graph.dependents.members module).flatMap fun dependent =>
    (graph.modulePaths.members dependent).filter fun path =>
      (graph.fileDependencies.members path).contains module)

/-- The graph with one more file. -/
def addFile (graph : ModuleGraph) (path : Text) (declaration : Declaration) : ModuleGraph where
  moduleFiles := graph.moduleFiles.insert declaration.module path
  modulePaths :=
    let earlier := graph.modulePaths.members declaration.module
    graph.modulePaths.insert declaration.module (earlier ++ [path])
  fileDependencies := graph.fileDependencies.insert path declaration.dependencies
  dependencies := graph.dependencies.addMembers declaration.module declaration.dependencies

end ModuleGraph

/-- The path has one of the extensions, without regard to case. -/
def isSource (extensions : List Text) (path : Text) : Bool :=
  extensions.any fun extension => Text.endsWith extension (Text.lower path)

/-- What a scan of the source roots comes upon. -/
inductive ScanStep where
  | missingRoot (root : Text)
  | file (path : Text)
  /-- A root that cannot be looked for, which ends the scan. -/
  | stop (error : OsError)
deriving DecidableEq

/-- The file of a step that is one. -/
def ScanStep.file? : ScanStep → Option Text
  | .file path => some path
  | .missingRoot _ | .stop _ => none

/-- The source files below the roots, each once, and the roots that are missing. The roots are
absolute. The files met so far are given. -/
def scan (disk : Disk) (extensions : List Text) (met : List Text) : List Text → List ScanStep
  | [] => []
  | root :: roots =>
    match disk.look (Path.tidy root) with
    | .error error => [.stop error]
    | .ok (some .directory) =>
      let files := (disk.walk root).map (Path.normalize ['/'])
      let fresh := Text.distinct
        (files.filter fun path => isSource extensions path && !met.contains path)
      fresh.map .file ++ scan disk extensions (met ++ fresh) roots
    | .ok _ => .missingRoot root :: scan disk extensions met roots

namespace Project

/-- The steps of a scan of the project as it is now. -/
def scanSteps (project : Project) : Action (List ScanStep) := do
  let roots ← project.roots.list
  let world ← Action.world
  pure (scan world.disk project.extensions [] roots)

/-- The source files of the project, in the order of the scan. -/
def sourceFiles (project : Project) : Action (List Text) := do
  let steps ← project.scanSteps
  Action.forEach steps fun step =>
    match step with
    | .missingRoot root => Action.emit (.missingRoot root)
    | .file _ => pure ()
    | .stop error => Action.fail (.os error)
  pure (steps.filterMap ScanStep.file?)

/-- Warns of a module that a file with the same extension has declared before. -/
def warnOfTwin (graph : ModuleGraph) (module path : Text) : Action Unit :=
  match graph.moduleFiles.get? module with
  | none => pure ()
  | some earlier =>
    if Path.extension earlier = Path.extension path then
      Action.emit (.declaredTwice module earlier path)
    else pure ()

/-- Adds a source file to the graph, unless it has no usable declaration. -/
def addSource (graph : ModuleGraph) (path : Text) : Action ModuleGraph := do
  match ← Action.readContent path with
  | .binary _ fault =>
    Action.emit (.skippedBytes path fault)
    pure graph
  | .text text =>
    match Declaration.parse text with
    | .error error =>
      Action.emit (.skippedSource path error)
      pure graph
    | .ok declaration =>
      warnOfTwin graph declaration.module path
      pure (graph.addFile path declaration)

/-- Adds what the steps of a scan come upon. -/
def addSteps (graph : ModuleGraph) : List ScanStep → Action ModuleGraph
  | [] => pure graph
  | .missingRoot root :: steps => do
    Action.emit (.missingRoot root)
    addSteps graph steps
  | .file path :: steps => do
    let graph ← addSource graph path
    addSteps graph steps
  | .stop error :: _ => Action.fail (.os error)

/-- The dependency graph of the project as it is now. -/
def graph (project : Project) : Action ModuleGraph := do
  let steps ← project.scanSteps
  let graph ← addSteps .empty steps
  Action.emit (.graphBuilt graph.moduleFiles.size)
  pure graph

end Project

end Relocate
