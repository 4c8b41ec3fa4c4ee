import Relocate.Action
import Relocate.Text.Quoted

/-!
# Source roots

Source roots are either a fixed list of directories, or the conventional source directories of a
project: those that exist at the moment they are asked for, or the project's own directory if none
does.
-/
namespace Relocate

/-- Where the source roots come from. -/
inductive SourceRoots where
  /-- Absolute, normalized directories without repetition. -/
  | fixed (roots : List Text)
  /-- A project's directory and the names of its source directories. -/
  | project (directory : Text) (names : List Text)
deriving DecidableEq, Repr

namespace SourceRoots

/-- A fixed list of directories. -/
def ofPaths (cwd : Text) (paths : List Text) : SourceRoots :=
  .fixed (Text.distinct (paths.map (Path.normalize cwd)))

/-- A directory of a project by its name. -/
def member (directory name : Text) : Text := Path.tidy (Path.append directory name)

/-- Those of the paths that lead to directories, normalized. -/
def directoriesAmong : List Text → Action (List Text)
  | [] => pure []
  | path :: paths => do
    if ← Action.isDirectory path then
      let first ← Action.normalize path
      let others ← directoriesAmong paths
      pure (first :: others)
    else directoriesAmong paths

/-- The source roots as they are now. -/
def list : SourceRoots → Action (List Text)
  | .fixed roots => pure roots
  | .project directory names => do
    match ← directoriesAmong (names.map (member directory)) with
    | [] =>
      Action.emit (.noSourceDirectories directory)
      let root ← Action.normalize directory
      pure [root]
    | found => pure found

/-- Texts in quotes with commas between them. -/
def quotedList (texts : List Text) : Text := Text.join [',', ' '] (texts.map Text.quoted)

/-- The roots as they are shown to a user. -/
def describe : SourceRoots → Text
  | .fixed roots => "StaticRoots([".toList ++ quotedList roots ++ "])".toList
  | .project directory names =>
    let trailing := if names.length = 1 then [','] else []
    "ProjectRoots(".toList ++ Text.quoted directory ++ ", (".toList ++ quotedList names ++ trailing
      ++ "))".toList

end SourceRoots

end Relocate
