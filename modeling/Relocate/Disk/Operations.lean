import Relocate.Disk.Lookup

/-!
# Files and directories of a disk

Reading, writing, listing, making and removing, each by path. A failed operation leaves the disk as
it was, except that making a directory with those above it may have made some of them.
-/
namespace Relocate.Disk

/-- What a file holds. -/
def read (disk : Disk) (path : Text) : Except OsError Content :=
  match disk.find path with
  | .error errno => .error ⟨errno, [path]⟩
  | .ok (_, .directory) => .error ⟨.isDirectory, [path]⟩
  | .ok (_, .file content) => .ok content

/-- Where a file of this path may be written. -/
def locateForWrite (disk : Disk) (path : Text) : Except Errno Location :=
  match disk.locateAbove path with
  | .error errno => .error errno
  | .ok _ =>
    if wantsDirectory path then .error .isDirectory
    else
      match disk.locate path with
      | .error errno => .error errno
      | .ok place =>
        if disk.nodeAt place = some .directory then .error .isDirectory else .ok place.location

/-- Makes a file or replaces what it holds. -/
def write (disk : Disk) (path : Text) (content : Content) : Except OsError Disk :=
  match disk.locateForWrite path with
  | .error errno => .error ⟨errno, [path]⟩
  | .ok location => .ok (disk.put location (.file content))

/-- The place of a directory. -/
def findDirectory (disk : Disk) (path : Text) : Except OsError Place :=
  match disk.find path with
  | .error errno => .error ⟨errno, [path]⟩
  | .ok (_, .file _) => .error ⟨.notDirectory, [path]⟩
  | .ok (place, .directory) => .ok place

/-- The names in a directory, in order. -/
def list (disk : Disk) (path : Text) : Except OsError (List Text) :=
  (disk.findDirectory path).map disk.childrenAt

/-- The path of something below a directory, given by its location from there. -/
def pathBelow (path : Text) (below : Location) : Text := Path.append path (Text.join ['/'] below)

/-- The files below a directory in the order of listing, as paths that continue its path.
Directories whose paths are too long are passed over. -/
def walk (disk : Disk) (path : Text) : List Text :=
  match disk.findDirectory path with
  | .error _ => []
  | .ok ⟨_, _ + 1⟩ => []
  | .ok ⟨location, 0⟩ =>
    let listed := (disk.tree.filesBelow location).filter fun below =>
      Utf8.size (pathBelow path below.dropLast) ≤ longestPath
    listed.map (pathBelow path)

/-- Removes an empty directory, which the path has to name: the top is in use, and what `..` leads
to holds the directory that it leads from. -/
def removeDirectory (disk : Disk) (path : Text) : Except OsError Disk :=
  match disk.locate path with
  | .error errno => .error ⟨errno, [path]⟩
  | .ok place =>
    match (steps path).getLast? with
    | none => .error ⟨.busy, [path]⟩
    | some ['.'] => .error ⟨.invalid, [path]⟩
    | some ['.', '.'] => .error ⟨.notEmpty, [path]⟩
    | some _ =>
      match disk.nodeAt place with
      | none => .error ⟨.noEntry, [path]⟩
      | some (.file _) => .error ⟨.notDirectory, [path]⟩
      | some .directory =>
        if (disk.childrenAt place).isEmpty then .ok (disk.eraseDirectory place.location)
        else .error ⟨.notEmpty, [path]⟩

/-- Makes one directory. -/
def makeDirectory (disk : Disk) (path : Text) : Except OsError Disk :=
  match disk.locate path with
  | .error errno => .error ⟨errno, [path]⟩
  | .ok place =>
    if (disk.nodeAt place).isSome then .error ⟨.present, [path]⟩
    else .ok (disk.put place.location .directory)

/-- Makes a directory of a tidy path and those above it, as far as they are missing. The disk comes
back also on failure. The number bounds the directories above. -/
def makeDirectoriesWith : Nat → Disk → Text → Disk × Option OsError
  | above, disk, path =>
    match disk.makeDirectory path with
    | .ok disk => (disk, none)
    | .error error =>
      match above with
      | above + 1 =>
        if error.errno = .noEntry && Path.parent path ≠ path then
          match makeDirectoriesWith above disk (Path.parent path) with
          | (disk, some error) => (disk, some error)
          | (disk, none) => settle disk path (disk.makeDirectory path)
        else settle disk path (.error error)
      | 0 => settle disk path (.error error)
where
  /-- A directory that is there already is as good as a new one. -/
  settle (disk : Disk) (path : Text) : Except OsError Disk → Disk × Option OsError
    | .ok disk => (disk, none)
    | .error error =>
      if error.errno ≠ .noEntry && disk.isDirectory path then (disk, none)
      else (disk, some error)

/-- Makes a directory and those above it, as far as they are missing. -/
def makeDirectories (disk : Disk) (path : Text) : Disk × Option OsError :=
  let tidy := Path.tidy path
  makeDirectoriesWith (Path.segments tidy).length disk tidy

end Relocate.Disk
