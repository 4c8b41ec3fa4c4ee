import Relocate.Declaration.Basic

/-!
# Writing declarations

A declaration is written with its name on the first line and one line for each item of the preamble,
each entry of a section and each section that is kept verbatim. The entries of a section stand
below each other.

Imported classes are gathered by package, in the order in which the packages first occur. A package
with one class is written as the full name of the class, one with more as a bracket.
-/
namespace Relocate

/-- Words in a vector. -/
def bracketed (words : List Text) : Text := '[' :: Text.join [' '] words ++ [']']

namespace Requirement

/-- The option that gives the short name. -/
def nicknameWords (requirement : Requirement) : List Text :=
  match requirement.nickname with
  | some name => [":as".toList, name]
  | none => []

/-- The option that gives the names taken over; taking over all of them comes first. -/
def referredWords (requirement : Requirement) : List Text :=
  if requirement.referAll then [":refer".toList, ":all".toList]
  else
    match requirement.referred with
    | some names => [":refer".toList, bracketed names]
    | none => []

/-- All options with their values. -/
def optionWords (requirement : Requirement) : List Text :=
  requirement.nicknameWords ++ requirement.referredWords
    ++ requirement.options.flatMap fun option => [option.1.render, option.2.render]

/-- The requirement as a libspec. One without options that had no brackets gets none. -/
def render (requirement : Requirement) : Text :=
  if requirement.bare && requirement.optionWords.isEmpty then requirement.target
  else bracketed (requirement.target :: requirement.optionWords)

end Requirement

def Entry.render : Entry → Text
  | .requirement required => required.render
  | .verbatim form => form.render

/-- The simple names of the classes that belong to a package. -/
def classesOf (package : Text) (classes : List Text) : List Text :=
  classes.filterMap fun name =>
    match Text.splitLast? '.' name with
    | some (owner, simple) => if owner = package then some simple else none
    | none => none

/-- What the lines of an import section are about, in order: each package at its first class, and
each class without package. The packages met so far are given. -/
def importHeads (met : List Text) : List Text → List Text
  | [] => []
  | name :: rest =>
    match Text.splitLast? '.' name with
    | none => name :: importHeads met rest
    | some (package, _) =>
      if met.contains package then importHeads met rest
      else package :: importHeads (package :: met) rest

/-- The line of an import section about a package, or about a class without package. -/
def importLine (classes : List Text) (head : Text) : Text :=
  match classesOf head classes with
  | [] => head
  | [simple] => head ++ '.' :: simple
  | simples => bracketed (head :: simples)

/-- The entries of an import section. -/
def importEntries (classes : List Text) (extras : List Form) : List Text :=
  (importHeads [] classes).map (importLine classes) ++ extras.map Form.render

/-- The lines with a closing parenthesis behind the last one. -/
def closeLast : List Text → List Text
  | [] => []
  | [line] => [line ++ [')']]
  | line :: lines => line :: closeLast lines

/-- The lines of a section with a keyword, its entries below each other. -/
def sectionLines (keyword : Text) (entries : List Text) : List Text :=
  let head := "  (:".toList ++ keyword
  match entries with
  | [] => closeLast [head]
  | entry :: entries =>
    let indent := List.replicate (head.length + 1) ' '
    closeLast ((head ++ ' ' :: entry) :: entries.map (indent ++ ·))

def Section.lines : Section → List Text
  | .references keyword entries => sectionLines keyword (entries.map Entry.render)
  | .imports classes extras => sectionLines "import".toList (importEntries classes extras)
  | .verbatim form => ["  ".toList ++ form.render]

/-- The first line of a declaration: the name behind its metadata. -/
def Declaration.firstLine (declaration : Declaration) : Text :=
  "(ns ".toList ++ declaration.notes.flatMap (fun note => '^' :: note.render ++ [' '])
    ++ declaration.module

/-- The lines of a declaration, without its closing parenthesis. -/
def Declaration.lines (declaration : Declaration) : List Text :=
  declaration.firstLine :: declaration.preamble.map (fun form => "  ".toList ++ form.render)
    ++ declaration.sections.flatMap Section.lines

/-- The declaration as a form of several lines, without a line end behind it. -/
def Declaration.render (declaration : Declaration) : Text :=
  Text.join ['\n'] declaration.lines ++ [')']

end Relocate
