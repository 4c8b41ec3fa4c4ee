import Relocate.SourceRoots

/-!
# Projects

A project is what renames work in: its source roots, and the extensions that make a file a source
file. A user describes it by a layout, in which paths may be relative to the project's directory
and extensions may lack their dot.
-/
namespace Relocate

/-- The extensions of source files unless others are given. -/
def defaultExtensions : List Text := [".clj".toList, ".cljc".toList, ".cljs".toList]

/-- The names of a project's source directories unless others are given. -/
def defaultSourceDirectories : List Text := ["src".toList, "test".toList, "dev".toList]

/-- Where the sources are, and which files are sources. -/
structure Project where
  roots : SourceRoots
  extensions : List Text
deriving DecidableEq

/-- How a user describes a project: its directory, its source roots, which may be relative to it,
the extensions of its sources, and the names of its source directories. -/
structure ProjectLayout where
  directory : Text
  sourceRoots : List Text
  extensions : List Text
  sourceDirectories : List Text

namespace ProjectLayout

/-- An extension with its dot, which a user may leave out. -/
def dotted (extension : Text) : Text :=
  match extension with
  | '.' :: _ => extension
  | _ => '.' :: extension

/-- The source roots if any are given, otherwise the project's source directories. -/
def roots (layout : ProjectLayout) (cwd : Text) : SourceRoots :=
  if layout.sourceRoots.isEmpty then .project layout.directory layout.sourceDirectories
  else .ofPaths cwd (layout.sourceRoots.map (SourceRoots.member layout.directory))

/-- The project that a layout describes. -/
def project (layout : ProjectLayout) (cwd : Text) : Project :=
  ⟨layout.roots cwd, layout.extensions.map dotted⟩

end ProjectLayout

end Relocate
