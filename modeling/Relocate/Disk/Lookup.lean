import Relocate.Disk.Basic
import Relocate.Path

/-!
# Following paths

A path is followed segment by segment from the top, or from the current directory if it is
relative. Each segment needs a directory to start from; `..` goes back to the directory above. What
the last segment leads to need not exist. A trailing slash asks for a directory.

Names and paths have a greatest length, counted in the bytes of their encoding. A name is measured
when it is looked for, the whole path before anything else. A path that holds a null character leads
nowhere, however long it is.
-/
namespace Relocate

/-- The greatest number of bytes of a name. -/
def longestName : Nat := 255

/-- The greatest number of bytes of a path. -/
def longestPath : Nat := 4095

/-- One segment from a directory. In a removed directory no name can be found or made. -/
def Place.step (place : Place) (segment : Text) : Except Errno Place :=
  if segment = ['.'] then .ok place
  else if segment = ['.', '.'] then .ok place.up
  else if place.removed ≠ 0 then .error .noEntry
  else if longestName < Utf8.size segment then .error .nameTooLong
  else .ok (.ofLocation (place.location ++ [segment]))

namespace Disk

/-- Follows segments from a place. -/
def follow (disk : Disk) (place : Place) : List Text → Except Errno Place
  | [] => .ok place
  | segment :: rest =>
    match disk.nodeAt place with
    | none => .error .noEntry
    | some (.file _) => .error .notDirectory
    | some .directory =>
      match place.step segment with
      | .error errno => .error errno
      | .ok next => disk.follow next rest

/-- The segments of a path that are followed. -/
def steps (path : Text) : List Text := (Text.split '/' path).filter (· ≠ [])

/-- Follows segments from where the path starts. -/
def followFrom (disk : Disk) (path : Text) (segments : List Text) : Except Errno Place :=
  if Path.holdsNull path then .error .noEntry
  else if longestPath < Utf8.size path then .error .nameTooLong
  else if path = [] then .error .noEntry
  else disk.follow (if Path.isAbsolute path then .ofLocation [] else disk.cwd) segments

/-- The place that a path leads to, whether or not something is there. A trailing slash is not
looked at. -/
def locate (disk : Disk) (path : Text) : Except Errno Place := disk.followFrom path (steps path)

/-- The directory that the last segment of a path starts from. -/
def locateAbove (disk : Disk) (path : Text) : Except Errno Place :=
  disk.followFrom path ((steps path).dropLast ++ [['.']])

/-- The path asks for a directory. -/
def wantsDirectory (path : Text) : Bool := Text.endsWith ['/'] path

/-- The path ends in a name, and not in `.` or `..` or at the top. -/
def endsInName (path : Text) : Bool :=
  match (steps path).getLast? with
  | none => false
  | some last => last ≠ ['.'] && last ≠ ['.', '.']

/-- What a path leads to, with its place. -/
def find (disk : Disk) (path : Text) : Except Errno (Place × Node) :=
  match disk.locate path with
  | .error errno => .error errno
  | .ok place =>
    match disk.nodeAt place with
    | none => .error .noEntry
    | some (.file content) =>
      if wantsDirectory path then .error .notDirectory else .ok (place, .file content)
    | some .directory => .ok (place, .directory)

def pathExists (disk : Disk) (path : Text) : Bool := (disk.find path).isOk

def isFile (disk : Disk) (path : Text) : Bool :=
  match disk.find path with
  | .ok (_, .file _) => true
  | _ => false

def isDirectory (disk : Disk) (path : Text) : Bool :=
  match disk.find path with
  | .ok (_, .directory) => true
  | _ => false

/-- What is at a path, if anything. A path that is too long to be looked for is an error. -/
def look (disk : Disk) (path : Text) : Except OsError (Option Node) :=
  match disk.find path with
  | .ok (_, node) => .ok (some node)
  | .error .nameTooLong => .error ⟨.nameTooLong, [path]⟩
  | .error _ => .ok none

/-- The path of the current directory, which a removed one has not. -/
def currentPath (disk : Disk) : Except OsError Text :=
  if disk.cwd.removed = 0 then .ok disk.cwd.location.path else .error ⟨.noEntry, []⟩

/-- The path of the directory that a path starts from. Only a relative path needs to know it. -/
def startOf (disk : Disk) (path : Text) : Except OsError Text :=
  if Path.isAbsolute path then .ok ['/'] else disk.currentPath

/-- The absolute path with slashes only. -/
def normalize (disk : Disk) (path : Text) : Except OsError Text :=
  (disk.startOf path).map fun start => Path.normalize start path

end Disk

end Relocate
