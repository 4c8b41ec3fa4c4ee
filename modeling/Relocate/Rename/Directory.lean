import Relocate.Rename.File

/-!
# Renaming directories

A directory is renamed file by file, each with a fresh dependency graph, because every move changes
the declarations that the graph is made of. The files to move are listed before the first move.
-/
namespace Relocate.Project

/-- Each file below a directory with the path it is to have below another one. -/
def directoryMoves (old new : Text) : Action (List (Text × Text)) := do
  let oldStart := Text.trimEnd '/' old ++ ['/']
  let newStart := Text.trimEnd '/' new ++ ['/']
  let files ← Action.normalizeAll (← Action.walk oldStart)
  pure (files.map fun path => (path, newStart ++ path.drop oldStart.length))

/-- Renames files one after the other and gives all files written. -/
def renameEach (project : Project) : List (Text × Text) → Action (List Text)
  | [] => pure []
  | (old, new) :: moves => do
    let written ← project.renameFile old new
    let others ← project.renameEach moves
    pure (written ++ others)

/-- Renames every file below a directory and gives the set of files written, each by the path that
it has in the end. -/
def renameDirectory (project : Project) (old new : Text) : Action (List Text) := do
  let moves ← directoryMoves old new
  let written ← project.renameEach moves
  let moved := OrderedMap.ofList moves
  pure (Text.sortedSet (written.map fun path => (moved.get? path).getD path))

/-- The argument of a rename, which must not be blank. -/
def pathArgument (path : Option Text) : Action Text :=
  match path with
  | none => Action.fail (.argument .blank)
  | some path => if Text.isBlank path then Action.fail (.argument .blank) else pure path

/-- Renames a file or directory and lists the files written. -/
def rename (project : Project) (old new : Option Text) : Action (List Text) := do
  let old ← pathArgument old
  let new ← pathArgument new
  let old ← Action.normalize old
  let new ← Action.normalize new
  let written ←
    if ← Action.isDirectory old then project.renameDirectory old new
    else if ← Action.isFile old then
      let written ← project.renameFile old new
      pure (Text.sortedSet (new :: written))
    else Action.fail (.argument (.missing old))
  let paths ← Action.normalizeAll written
  pure (Text.sort paths)

end Relocate.Project
