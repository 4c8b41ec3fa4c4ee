import Relocate.ModuleGraph
import Relocate.References
import Relocate.Text.Blank

/-!
# Renaming a file

A file that declares a module is renamed in four steps. The new module name follows from the new
path. The new texts of all files that depend on the old module are worked out before anything is
changed. Then the file is moved, and the directories it leaves empty are removed. At last its own
text and those of its dependents are written.

A file that declares no module is only moved.
-/
namespace Relocate

/-- What the rename of one file will do. -/
structure MovePlan where
  oldPath : Text
  newPath : Text
  oldModule : Text
  newModule : Text
  /-- The new text of each file that depends on the old module. -/
  updates : OrderedMap Text

namespace Project

/-- The module of a path below the source roots. -/
def resolve (project : Project) (path : Text) : Action Text := do
  let start ← Action.startOf path
  let roots ← project.roots.list
  Action.ofExcept .resolution (resolveModule start roots path)

/-- The path that a module has below a root, by default the first one. -/
def pathFor (project : Project) (module : Text) (root : Option Text) (extension : Text) :
    Action Text := do
  let roots ← if root.isSome then pure [] else project.roots.list
  let start ← Action.startOf (root.getD ['/'])
  Action.ofExcept .resolution (modulePath start roots module root extension)

/-- The module that a source file declares. A file without a usable declaration declares none. -/
def declaredModule (project : Project) (path : Text) : Action (Option Text) := do
  if isSource project.extensions path then
    match ← Action.readContent path with
    | .binary _ _ =>
      Action.emit (.notText path)
      pure none
    | .text text =>
      match Declaration.parse text with
      | .ok declaration => pure (some declaration.module)
      | .error _ =>
        Action.emit (.undeclared path)
        pure none
  else pure none

/-- The new text of a file that depends on a renamed module. -/
def updatedText (path old new : Text) : Action Text := do
  Action.emit (.renamingReferences old path)
  let text ← Action.readText path
  Action.ofExcept .declaration (renameInText old new text)

/-- The new texts of several files that depend on a renamed module. -/
def updatedTexts (old new : Text) : List Text → Action (List (Text × Text))
  | [] => pure []
  | path :: paths => do
    let text ← updatedText path old new
    let others ← updatedTexts old new paths
    pure ((path, text) :: others)

/-- Works out what the rename of a file that declares a module will do. -/
def plan (project : Project) (old new module : Text) : Action MovePlan := do
  let newModule ← project.resolve new
  let graph ← project.graph
  let updates := OrderedMap.ofList (← updatedTexts module newModule (graph.dependentsOf module))
  Action.emit (.planned module newModule updates.size)
  pure ⟨old, new, module, newModule, updates⟩

/-- Removes a directory and those above it while they are empty and no boundary, which is compared
in lower case. The top, if it comes to be empty, is tried like the others, and cannot be removed.
The number bounds the directories. -/
def pruneWith (boundaries : List Text) : Nat → Text → Action Unit
  | 0, _ => pure ()
  | bound + 1, directory => do
    if boundaries.contains (Text.lower directory) then pure ()
    else if !(← Action.isDirectory directory) then pure ()
    else if !(← Action.list directory).isEmpty then pure ()
    else
      Action.emit (.removing directory)
      Action.removeDirectory directory
      if Path.directory directory = directory then pure ()
      else pruneWith boundaries bound (Path.directory directory)

/-- Removes a directory and those above it while they are empty, up to a source root. Each step
shortens the path, so its length bounds the steps. -/
def prune (project : Project) (directory : Text) : Action Unit := do
  let roots ← project.roots.list
  let boundaries := (← Action.normalizeAll roots).map Text.lower
  pruneWith boundaries (directory.length + 1) directory

/-- Moves a file, makes the directories it needs and removes those it leaves empty. -/
def moveFile (project : Project) (old new : Text) : Action Unit := do
  Action.emit (.moving old new)
  Action.makeDirectories (Path.directory new)
  Action.move old new
  project.prune (Path.directory old)

/-- Gives the moved file its new module name, at the first place where the old one stands. -/
def renameOwnModule (plan : MovePlan) : Action Unit := do
  let text ← Action.readText plan.newPath
  Action.writeText plan.newPath (Text.replaceFirst plan.oldModule plan.newModule text)

/-- Writes a new text to a file that depends on the renamed module. -/
def update (path text : Text) : Action Unit := do
  Action.emit (.updating path)
  Action.writeText path text

/-- Carries out a plan and gives the files written. -/
def execute (project : Project) (plan : MovePlan) : Action (List Text) := do
  project.moveFile plan.oldPath plan.newPath
  renameOwnModule plan
  Action.forEach plan.updates.entries fun entry => update entry.1 entry.2
  pure (Text.sortedSet (plan.newPath :: plan.updates.keys))

/-- Renames a file and gives the set of files written. -/
def renameFile (project : Project) (old new : Text) : Action (List Text) := do
  match ← project.declaredModule old with
  | none =>
    project.moveFile old new
    pure [new]
  | some module =>
    let plan ← project.plan old new module
    project.execute plan

end Project

end Relocate
