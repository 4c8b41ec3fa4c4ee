import Relocate.Text.Basic

/-!
# Paths

A path is a text with slashes between its segments. Two slashes in front are a root of their own;
three or more are the same as one. Nothing here looks at a file tree.

`tidy` drops what never matters: empty and `.` segments and a trailing slash. `simplify` also takes
back a segment for each `..` behind it. `normalize` makes a path absolute, simplifies it and turns
backslashes into slashes, in this order.
-/
namespace Relocate.Path

/-- The path starts at the root. -/
def isAbsolute (path : Text) : Bool :=
  match path with
  | '/' :: _ => true
  | _ => false

/-- The path holds a null character, which no name has. -/
def holdsNull (path : Text) : Bool := path.contains '\x00'

/-- The path as seen from a directory. -/
def append (base path : Text) : Text :=
  if isAbsolute path then path
  else if base.isEmpty || Text.endsWith ['/'] base then base ++ path
  else base ++ '/' :: path

/-- The slashes in front that count. -/
def root : Text → Text
  | '/' :: '/' :: '/' :: _ => ['/']
  | '/' :: '/' :: _ => ['/', '/']
  | '/' :: _ => ['/']
  | _ => []

/-- The segments that name something: neither empty nor the directory itself. -/
def segments (path : Text) : List Text :=
  (Text.split '/' path).filter fun segment => segment ≠ [] && segment ≠ ['.']

/-- A path of a root and segments; without both it is the current directory. -/
def ofSegments (root : Text) (segments : List Text) : Text :=
  match root ++ Text.join ['/'] segments with
  | [] => ['.']
  | path => path

/-- The path without empty and `.` segments and without a trailing slash. -/
def tidy (path : Text) : Text := ofSegments (root path) (segments path)

/-- One more segment behind those passed so far, the last one first. The parent of the root is the
root; the parent of a relative path's start has to be kept. -/
def climb (rooted : Bool) (passed : List Text) (segment : Text) : List Text :=
  if segment = ['.', '.'] then
    match passed with
    | [] => if rooted then [] else [segment]
    | last :: earlier => if last = ['.', '.'] then segment :: passed else earlier
  else segment :: passed

/-- The path without `.`, `..` and empty segments, as far as its text allows. -/
def simplify (path : Text) : Text :=
  ofSegments (root path) ((segments path).foldl (climb (isAbsolute path)) []).reverse

/-- The absolute path of a file with slashes only. -/
def normalize (cwd path : Text) : Text :=
  Text.replaceChar '\\' '/' (simplify (append cwd path))

/-- The part of a path up to and including its last slash. -/
def throughLastSlash (path : Text) : Text :=
  (path.reverse.dropWhile (· ≠ '/')).reverse

/-- The directory that a path lies in, by its text: without the last segment and the slashes before
it, unless they are all there is. -/
def directory (path : Text) : Text :=
  let head := throughLastSlash path
  if head.all (· = '/') then head else Text.trimEnd '/' head

/-- What stands behind the last slash. -/
def baseName (path : Text) : Text := path.drop (throughLastSlash path).length

/-- The extension of a path with its dot. Dots that start a file name start no extension. -/
def extension (path : Text) : Text :=
  match Text.splitLast? '.' (baseName path) with
  | none => []
  | some (stem, suffix) => if stem.all (· = '.') then [] else '.' :: suffix

/-- The path without its extension. -/
def dropExtension (path : Text) : Text := path.take (path.length - (extension path).length)

/-- The parent of a tidy path; the root and the current directory are their own. -/
def parent (path : Text) : Text := ofSegments (root path) (segments path).dropLast

end Relocate.Path

namespace Relocate.ModuleName

/-- The module of a file, given by its path relative to the source root. -/
def ofRelativePath (path : Text) : Text :=
  let slashed := Text.trim '/' (Text.replaceChar '\\' '/' path)
  Text.replaceChar '_' '-' (Text.replaceChar '/' '.' (Path.dropExtension slashed))

end Relocate.ModuleName
