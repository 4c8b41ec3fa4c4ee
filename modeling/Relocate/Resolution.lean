import Relocate.ModuleName
import Relocate.Path
import Relocate.Text.LowerCase

/-!
# Source roots and module names

Below a source root the path of a file gives the name of its module. A path belongs to a root when
it continues the root behind a slash, without regard to case. With nested roots the one that leaves
the shortest remainder counts, and of equal ones the first.
-/
namespace Relocate

/-- Why a path gives no module name, or a module name no path. -/
inductive ResolutionError where
  | outside (path : Text)
  | isRoot (path : Text)
  | noRoots
deriving DecidableEq, Repr

def ResolutionError.message : ResolutionError → String
  | .outside path => "Can't find a source root containing " ++ String.ofList path
  | .isRoot path => String.ofList path ++ " is a source root, not a module path"
  | .noRoots => "No source roots configured"

/-- What a path adds to a root that contains it. The root's own length is cut off. -/
def remainder? (root path : Text) : Option Text :=
  let start := Text.trimEnd '/' root ++ ['/']
  if Text.startsWith (Text.lower start) (Text.lower path) then some (path.drop start.length)
  else none

/-- The first of the shortest texts. -/
def shortest? : List Text → Option Text
  | [] => none
  | text :: texts =>
    match shortest? texts with
    | none => some text
    | some other => if other.length < text.length then some other else some text

/-- The module of a path below one of the roots. -/
def resolveModule (cwd : Text) (roots : List Text) (path : Text) : Except ResolutionError Text :=
  let target := Path.normalize cwd path
  match shortest? (roots.filterMap fun root => remainder? (Path.normalize cwd root) target) with
  | none => .error (.outside target)
  | some remainder =>
    let relative := Text.trim '/' remainder
    if relative.isEmpty then .error (.isRoot target) else .ok (ModuleName.ofRelativePath relative)

/-- The path that a module has below a root, by default the first one. -/
def modulePath (cwd : Text) (roots : List Text) (module : Text) (root : Option Text)
    (extension : Text) : Except ResolutionError Text :=
  match root, roots with
  | none, [] => .error .noRoots
  | some root, _ => .ok (below root)
  | none, root :: _ => .ok (below root)
where
  below (root : Text) : Text :=
    Text.trimEnd '/' (Path.normalize cwd root) ++ '/' :: ModuleName.toRelativePath module extension

end Relocate
