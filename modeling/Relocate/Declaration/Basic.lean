import Relocate.Form.Basic

/-!
# Declarations

The namespace declaration of a source file says which module the file is and what it needs: a name
with metadata in front of it, a preamble (documentation and attributes before the first section),
and sections.

Only two kinds of section are understood. A reference section, such as `(:require ...)`, holds
requirements, each of which makes the file depend on one module. An import section holds names of
classes. What is not understood is kept verbatim, at its place.
-/
namespace Relocate

/-- One module that a reference section asks for. -/
structure Requirement where
  /-- The module that is depended on. -/
  target : Text
  /-- The short name given to it. -/
  nickname : Option Text
  /-- The names taken over from it. -/
  referred : Option (List Text)
  /-- All of its names are taken over. -/
  referAll : Bool
  /-- Every other option with its value. -/
  options : List (Form × Form)
  /-- The requirement was a symbol on its own, without brackets. -/
  bare : Bool
deriving DecidableEq

/-- A requirement without any option. -/
def Requirement.plain (target : Text) (bare : Bool) : Requirement :=
  ⟨target, none, none, false, [], bare⟩

/-- The requirement with another target. -/
def Requirement.withTarget (requirement : Requirement) (target : Text) : Requirement :=
  { requirement with target }

/-- An entry of a reference section. -/
inductive Entry where
  | requirement (required : Requirement)
  | verbatim (form : Form)
deriving DecidableEq

/-- A section of a declaration. -/
inductive Section where
  /-- A reference section with its keyword. -/
  | references (keyword : Text) (entries : List Entry)
  /-- An import section: the full names of the classes, and what else stands in it. -/
  | imports (classes : List Text) (extras : List Form)
  | verbatim (form : Form)
deriving DecidableEq

/-- A namespace declaration. -/
structure Declaration where
  /-- The module that the file declares. -/
  module : Text
  /-- The metadata in front of the name. -/
  notes : List Form
  /-- Documentation and attributes before the first section. -/
  preamble : List Form
  sections : List Section
deriving DecidableEq

/-- The requirement of an entry that is one. -/
def Entry.requirement? : Entry → Option Requirement
  | .requirement required => some required
  | .verbatim _ => none

/-- The requirements of a section, in order. -/
def Section.requirements : Section → List Requirement
  | .references _ entries => entries.filterMap Entry.requirement?
  | _ => []

/-- The classes that a section imports, in order. -/
def Section.classes : Section → List Text
  | .imports classes _ => classes
  | _ => []

/-- The requirements of a declaration, in order. -/
def Declaration.requirements (declaration : Declaration) : List Requirement :=
  declaration.sections.flatMap Section.requirements

/-- The classes that a declaration imports, in order. -/
def Declaration.classes (declaration : Declaration) : List Text :=
  declaration.sections.flatMap Section.classes

/-- The set of modules that a file with this declaration depends on. -/
def Declaration.dependencies (declaration : Declaration) : List Text :=
  Text.sortedSet (declaration.requirements.map Requirement.target)

end Relocate
