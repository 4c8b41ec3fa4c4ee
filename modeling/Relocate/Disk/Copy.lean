import Relocate.Disk.Operations

/-!
# Copies

A file or a directory with everything in it can be copied to another path, and a directory can be
removed with everything in it.

The directory that a copy goes to is made first, with those above it that are missing. It must be
new, but those above it need not be. What is to be copied is listed before that. A part that cannot
be copied does not keep the others from being copied; its fault goes into the report of the whole.
-/
namespace Relocate

/-- An item of the report on the parts of a directory that could not be copied. -/
inductive CopyFault where
  /-- A part that could not be copied. -/
  | part (source target : Text) (reason : String)
  /-- One letter of the message about a part that is its own copy. -/
  | letter (c : Char)
deriving DecidableEq, Repr

/-- Why a copy fails. -/
inductive CopyError where
  | os (error : OsError)
  /-- A file is to go to a path that asks for a directory which is not there. -/
  | noDirectory (path : Text)
  /-- A file of a directory is to be copied onto itself. -/
  | sameFile (name target : Text)
  /-- Parts of a directory could not be copied. -/
  | parts (faults : List CopyFault)
deriving DecidableEq, Repr

def CopyFault.message : CopyFault → Text
  | .part source target reason =>
    let items := [source, target, reason.toList].map Text.quoted
    ['('] ++ Text.join [',', ' '] items ++ [')']
  | .letter c => Text.quoted [c]

def CopyError.message : CopyError → String
  | .os error => error.message
  | .sameFile name target =>
    "<DirEntry " ++ String.ofList (Text.quoted name) ++ "> and "
      ++ String.ofList (Text.quoted target) ++ " are the same file"
  | .noDirectory path => "Directory does not exist: " ++ String.ofList path
  | .parts faults =>
    String.ofList (['['] ++ Text.join [',', ' '] (faults.map CopyFault.message) ++ [']'])

namespace Disk

/-- A path cut before its last segment, which a trailing slash does not count as. -/
def splitPath (path : Text) : Text × Text :=
  let whole := if wantsDirectory path then Path.directory path else path
  (Path.directory whole, Path.baseName whole)

/-- Makes a directory, which must be new, and those above it that are missing. Of a path that ends
in `.` only the directory before that is made. The number bounds the directories. -/
def makeNewWith : Nat → Disk → Text → Disk × Option OsError
  | 0, disk, path => single disk path
  | bound + 1, disk, path =>
    let (above, last) := splitPath path
    if above.isEmpty || last.isEmpty || disk.pathExists above then single disk path
    else
      let (disk, error) := makeNewWith bound disk above
      match error.filter fun error => error.errno ≠ .present with
      | some error => (disk, some error)
      | none => if last = ['.'] then (disk, none) else single disk path
where
  /-- Makes the directory alone. -/
  single (disk : Disk) (path : Text) : Disk × Option OsError :=
    match disk.makeDirectory path with
    | .ok disk => (disk, none)
    | .error error => (disk, some error)

/-- Makes a directory, which must be new, and those above it that are missing. Each directory above
has a shorter path, so the length of the path bounds them. -/
def makeNew (disk : Disk) (path : Text) : Disk × Option OsError :=
  makeNewWith path.length disk path

/-- Two paths lead to one and the same thing. -/
def isSame (disk : Disk) (path other : Text) : Bool :=
  match disk.find path, disk.find other with
  | .ok (place, _), .ok (otherPlace, _) => place = otherPlace
  | _, _ => false

/-- Copies a file to exactly the target. -/
def copyFileTo (disk : Disk) (source target : Text) : Disk × Option CopyError :=
  if disk.isSame source target then (disk, some (.sameFile (Path.baseName source) target))
  else
    match disk.read source with
    | .error error => (disk, some (.os error))
    | .ok content =>
      match disk.write target content with
      | .ok disk => (disk, none)
      | .error error =>
        if error.errno = .isDirectory && !disk.pathExists target then
          (disk, some (.noDirectory target))
        else (disk, some (.os error))

/-- Copies a file. If a directory is at the target, the copy goes into it. -/
def copyFile (disk : Disk) (source target : Text) : Disk × Option CopyError :=
  if disk.isDirectory target then
    disk.copyFileTo source (Path.append target (Path.baseName source))
  else disk.copyFileTo source target

/-- The names in a directory, each with what it stands for. -/
def entriesIn (disk : Disk) (path : Text) : Except OsError (List (Text × Node)) :=
  (disk.findDirectory path).map fun place =>
    (disk.childrenAt place).filterMap fun name =>
      (disk.tree.get? (place.location ++ [name])).map fun node => (name, node)

/-- What a failed copy of a part adds to the faults of the whole. -/
def faultsOf (source target : Text) : Option CopyError → List CopyFault
  | none => []
  | some (.parts faults) => faults
  | some (.sameFile name target) =>
    (CopyError.sameFile name target).message.toList.map .letter
  | some error => [.part source target error.message]

/-- Copies a directory with everything in it. The number bounds the levels below it. -/
def copyDirectoryWith : Nat → Disk → Text → Text → Disk × Option CopyError
  | 0, disk, _, _ => (disk, none)
  | depth + 1, disk, source, target =>
    match disk.entriesIn source with
    | .error error => (disk, some (.os error))
    | .ok entries =>
      match disk.makeNew target with
      | (disk, some error) => (disk, some (.os error))
      | (disk, none) =>
        let copyEntry := fun (state : Disk × List CopyFault) (entry : Text × Node) =>
          let partSource := Path.append source entry.1
          let partTarget := Path.append target entry.1
          let (disk, error) :=
            match entry.2 with
            | .directory => copyDirectoryWith depth state.1 partSource partTarget
            | .file _ => state.1.copyFile partSource partTarget
          (disk, state.2 ++ faultsOf partSource partTarget error)
        let (disk, faults) := entries.foldl copyEntry (disk, [])
        (disk, if faults.isEmpty then none else some (.parts faults))

/-- Copies a directory with everything in it. No directory is nested deeper than there are entries
in the tree. -/
def copyDirectory (disk : Disk) (source target : Text) : Disk × Option CopyError :=
  copyDirectoryWith (disk.tree.entries.length + 1) disk source target

/-- Removes a directory with everything in it. What is in it goes first, so that a directory which
the path does not name is left empty. -/
def removeWhole (disk : Disk) (path : Text) : Disk × Option OsError :=
  match disk.findDirectory path with
  | .error error => (disk, some error)
  | .ok place =>
    let cleared := if place.removed = 0 then disk.clear place.location else disk
    match cleared.removeDirectory path with
    | .ok disk => (disk, none)
    | .error error => (cleared, some error)

end Disk

end Relocate
