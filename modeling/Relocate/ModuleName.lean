import Relocate.Text.Basic

/-!
# Module names

A module name is made of segments with dots between them. Where a name has to serve as a class or
file name, its hyphens become underscores; the result is the flattened name.
-/
namespace Relocate.ModuleName

/-- The name with underscores for hyphens, as it stands in class names. -/
def flatten (name : Text) : Text := Text.replaceChar '-' '_' name

/-- Moves a dotted name from below `old` to below `new`. Only whole segments count: a name whose
segment merely starts with the last one of `old` stays as it is. -/
def rebase (old new name : Text) : Text :=
  if name = old then new
  else if Text.startsWith (old ++ ['.']) name then new ++ name.drop old.length
  else name

/-- The file of a module relative to its source root: segments become directories. -/
def toRelativePath (name extension : Text) : Text :=
  Text.replaceChar '.' '/' (Text.replaceChar '-' '_' name) ++ extension

end Relocate.ModuleName
