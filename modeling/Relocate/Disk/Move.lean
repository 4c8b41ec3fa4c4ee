import Relocate.Disk.Copy

/-!
# Moves

A move takes something to a new path. If a directory is there, the thing goes into it under its own
name. A file replaces a file.

A thing is moved by giving its node another location. Where that is refused, it is copied, and then
removed: a directory may need directories above its new path, and a path that ends in `.` or `..`
names no node. A directory cannot go into itself, as far as the texts of the paths tell.
-/
namespace Relocate

/-- Why a move fails. -/
inductive MoveError where
  | os (error : OsError)
  | copy (error : CopyError)
  /-- The directory that the thing would go into has something of that name. -/
  | destinationExists (path : Text)
  /-- A directory would go below itself. -/
  | intoItself (old new : Text)
deriving DecidableEq, Repr

def MoveError.message : MoveError → String
  | .os error => error.message
  | .copy error => error.message
  | .destinationExists path => "Destination path '" ++ String.ofList path ++ "' already exists"
  | .intoItself old new =>
    "Cannot move a directory '" ++ String.ofList old ++ "' into itself '" ++ String.ofList new
      ++ "'."

namespace Disk

/-- The disk after a node has taken another location, or nothing if it cannot go there: a file may
replace a file, a directory needs a free location that is not below its own. -/
def moveNode? (disk : Disk) (old : Location) (node : Node) (new : Location) : Option Disk :=
  match node, disk.tree.get? new with
  | .file content, none => some ((disk.eraseFile old).put new (.file content))
  | .file content, some (.file _) =>
    if old = new then some disk else some ((disk.eraseFile old).put new (.file content))
  | .file _, some .directory => none
  | .directory, none => if old.isPrefixOf new then none else some (disk.rebase old new)
  | .directory, some _ => none

/-- The disk after the node of a path has taken the location of another path, or nothing if that is
refused. Both paths have to end in names, and a file has no path that asks for a directory. -/
def relocate? (disk : Disk) (old new : Text) : Option Disk :=
  if endsInName old && endsInName new then
    match disk.find old, disk.locate new with
    | .ok (source, .file content), .ok target =>
      if wantsDirectory new then none
      else disk.moveNode? source.location (.file content) target.location
    | .ok (source, .directory), .ok target =>
      disk.moveNode? source.location .directory target.location
    | _, _ => none
  else none

/-- The path lies at or below another one, by their texts. -/
def isBelow (disk : Disk) (path above : Text) : Except OsError Bool := do
  let close := fun (start path : Text) =>
    let simple := Path.simplify (Path.append start path)
    if Text.endsWith ['/'] simple then simple else simple ++ ['/']
  let aboveStart ← disk.startOf above
  let pathStart ← disk.startOf path
  pure (Text.startsWith (close aboveStart above) (close pathStart path))

/-- Moves a directory by copying it to the path `target`; `new` is the path that was asked for. -/
def moveDirectoryByCopy (disk : Disk) (old new target : Text) : Disk × Option MoveError :=
  match disk.isBelow new old with
  | .error error => (disk, some (.os error))
  | .ok true => (disk, some (.intoItself old new))
  | .ok false =>
    match disk.copyDirectory old target with
    | (disk, some error) => (disk, some (.copy error))
    | (disk, none) =>
      let (disk, error) := disk.removeWhole old
      (disk, error.map .os)

/-- Moves a file by copying it. -/
def moveFileByCopy (disk : Disk) (old target : Text) : Disk × Option MoveError :=
  match disk.copyFile old target with
  | (disk, some error) => (disk, some (.copy error))
  | (disk, none) =>
    match disk.locate old with
    | .error errno => (disk, some (.os ⟨errno, [old]⟩))
    | .ok source => (disk.eraseFile source.location, none)

/-- Moves what is at `old` to exactly the path `target`; `new` is the path that was asked for. -/
def moveTo (disk : Disk) (old new target : Text) : Disk × Option MoveError :=
  match disk.relocate? old target with
  | some disk => (disk, none)
  | none =>
    if disk.isDirectory old then disk.moveDirectoryByCopy old new target
    else disk.moveFileByCopy old target

/-- Moves a file or directory. A directory that is to go to its own place stays there, if both paths
end in its name. -/
def move (disk : Disk) (old new : Text) : Disk × Option MoveError :=
  match disk.find new with
  | .ok (_, .directory) =>
    if disk.isSame old new then
      if endsInName old && endsInName new then (disk, none)
      else (disk, some (.os ⟨.busy, [old, new]⟩))
    else
      let target := Path.append new (Path.baseName (Text.trimEnd '/' old))
      if disk.pathExists target then (disk, some (.destinationExists target))
      else disk.moveTo old new target
  | _ => disk.moveTo old new new

end Disk

end Relocate
