import Relocate.FileTree
import Relocate.Text.Quoted

/-!
# Disks

A disk is a file tree together with the current directory in it. The current directory is a
directory and not a path: when it is moved, the disk follows it, and when it is removed, the disk
stays in it. A removed directory is empty, and nothing can be made in it. It is there as long as the
directory that it was removed from is; a current directory that is nowhere leads nowhere, so that
nothing needs to be known of it.

Failures are those of a POSIX system, with its error numbers. Symbolic links and permissions are
left out: every node of the tree is a plain file or a directory, and any of them may be changed.
-/
namespace Relocate

/-- The ways in which an operation on a disk fails. -/
inductive Errno where
  | noEntry
  | busy
  | present
  | notDirectory
  | isDirectory
  | invalid
  | nameTooLong
  | notEmpty
deriving DecidableEq, Repr

def Errno.number : Errno → Nat
  | .noEntry => 2
  | .busy => 16
  | .present => 17
  | .notDirectory => 20
  | .isDirectory => 21
  | .invalid => 22
  | .nameTooLong => 36
  | .notEmpty => 39

def Errno.message : Errno → String
  | .noEntry => "No such file or directory"
  | .busy => "Device or resource busy"
  | .present => "File exists"
  | .notDirectory => "Not a directory"
  | .isDirectory => "Is a directory"
  | .invalid => "Invalid argument"
  | .nameTooLong => "File name too long"
  | .notEmpty => "Directory not empty"

/-- A failure and the paths that it is about: usually one, two if something was to go from one to
the other, and none if it is about the current directory. -/
structure OsError where
  errno : Errno
  paths : List Text
deriving DecidableEq, Repr

def OsError.message (error : OsError) : String :=
  let about :=
    match error.paths with
    | [] => []
    | paths => [':', ' '] ++ Text.join " -> ".toList (paths.map Text.quoted)
  "[Errno " ++ toString error.errno.number ++ "] " ++ error.errno.message ++ String.ofList about

/-- Where a path may lead: a location of the tree, or a directory that has been removed. Of a
removed directory the way back is kept: the nearest directory above it that is still in the tree,
and the number of removed directories from there down to it. -/
structure Place where
  location : Location
  removed : Nat
deriving DecidableEq, Repr

namespace Place

/-- A place of the tree. -/
def ofLocation (location : Location) : Place := ⟨location, 0⟩

/-- The directory above. The top is above itself. -/
def up (place : Place) : Place :=
  match place.removed with
  | 0 => ⟨place.location.dropLast, 0⟩
  | removed + 1 => ⟨place.location, removed⟩

/-- The place after everything at and below a location has been moved to another one. -/
def afterMove (place : Place) (old new : Location) : Place :=
  { place with location := place.location.rebase old new }

/-- The place after everything below a location has been removed. -/
def afterClearing (place : Place) (location : Location) : Place :=
  if location.isPrefixOf place.location then
    ⟨location, place.removed + (place.location.length - location.length)⟩
  else place

/-- The place after the directory at a location has been removed. -/
def afterRemoval (place : Place) (location : Location) : Place :=
  if place.location = location then ⟨location.dropLast, place.removed + 1⟩ else place

end Place

/-- A file tree and the current directory. -/
structure Disk where
  tree : FileTree
  cwd : Place
deriving DecidableEq

namespace Disk

/-- What is at a place. A removed directory is there if the one that it was removed from is. -/
def nodeAt (disk : Disk) (place : Place) : Option Node :=
  match place.removed with
  | 0 => disk.tree.get? place.location
  | _ + 1 => if disk.tree.get? place.location = some .directory then some .directory else none

/-- The names in the directory at a place, in order. -/
def childrenAt (disk : Disk) (place : Place) : List Text :=
  match place.removed with
  | 0 => disk.tree.children place.location
  | _ + 1 => []

/-- The disk with a node put at a location. -/
def put (disk : Disk) (location : Location) (node : Node) : Disk :=
  { disk with tree := disk.tree.put location node }

/-- The disk without the file at a location. -/
def eraseFile (disk : Disk) (location : Location) : Disk :=
  { disk with tree := disk.tree.erase location }

/-- The disk without the directory at a location. -/
def eraseDirectory (disk : Disk) (location : Location) : Disk :=
  ⟨disk.tree.erase location, disk.cwd.afterRemoval location⟩

/-- The disk without anything below a location. -/
def clear (disk : Disk) (location : Location) : Disk :=
  ⟨disk.tree.clear location, disk.cwd.afterClearing location⟩

/-- The disk in which everything at and below a location has been moved to another one. -/
def rebase (disk : Disk) (old new : Location) : Disk :=
  ⟨disk.tree.rebase old new, disk.cwd.afterMove old new⟩

end Disk

end Relocate
