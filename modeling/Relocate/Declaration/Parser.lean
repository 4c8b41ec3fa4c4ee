import Relocate.Declaration.Basic
import Relocate.Form.Reader

/-!
# Reading declarations

The declaration of a file is its first top-level form that is a list headed by the symbol `ns`,
whatever metadata stands in front of it. What precedes and what follows the form are kept as text.

A libspec of a reference section is a symbol, a symbol with options in brackets, or a prefix list
such as `[clojure [set] [string :as str]]`, which stands for one requirement for each library in
it. An entry that is no libspec, or a prefix list with a part that is none, is kept verbatim as a
whole.
-/
namespace Relocate

/-- Why a file has no usable declaration. -/
inductive DeclarationError where
  | noName
  | notSymbol (form : Form)
  | noDeclaration
  | unreadable (error : ReadError)
deriving DecidableEq

def DeclarationError.message : DeclarationError → String
  | .noName => "ns form without a name"
  | .notSymbol form => "ns name must be a symbol, got " ++ String.ofList form.render
  | .noDeclaration => "No ns form found"
  | .unreadable error => "Could not read ns form: " ++ error.message

/-- The keywords of reference sections. -/
def referenceKeywords : List Text :=
  ["require".toList, "use".toList, "require-macros".toList, "use-macros".toList]

/-- The items of a vector or a list. -/
def Form.plainItems? : Form → Option (List Form)
  | .seq .vector items => some items
  | .seq .list items => some items
  | _ => none

/-- The requirement with one more option. The short name and the referred names are understood, and
the last one given wins; any other option is kept as it is. -/
def Requirement.addOption (requirement : Requirement) (key : Text) (value : Form) : Requirement :=
  let other := { requirement with options := requirement.options ++ [(.keyword key, value)] }
  if key = "as".toList then
    match value with
    | .symbol name => { requirement with nickname := some name }
    | _ => other
  else if key = "refer".toList then
    match value, value.plainItems? with
    | _, some items => { requirement with referred := some (items.map Form.render) }
    | .keyword name, none =>
      if name = "all".toList then { requirement with referAll := true } else other
    | _, none => other
  else other

/-- The requirement with the options of a libspec: keywords, each followed by its value. -/
def Requirement.addOptions? (requirement : Requirement) : List Form → Option Requirement
  | [] => some requirement
  | .keyword key :: value :: rest => (requirement.addOption key value).addOptions? rest
  | _ => none

mutual

/-- The requirements that a libspec stands for below a package, given with its final dot. -/
def libspec? (package : Text) : Form → Option (List Requirement)
  | .symbol name => some [.plain (package ++ name) true]
  | .seq bracket (.symbol name :: rest) =>
    if bracket = .vector || bracket = .list then
      match rest with
      | [] => some [.plain (package ++ name) false]
      | .keyword key :: options =>
        let plain := Requirement.plain (package ++ name) false
        (plain.addOptions? (.keyword key :: options)).map ([·])
      | libspecs => libspecs? (package ++ name ++ ['.']) libspecs
    else none
  | _ => none

/-- The requirements of all libspecs of a prefix list, if all are libspecs. -/
def libspecs? (package : Text) : List Form → Option (List Requirement)
  | [] => some []
  | form :: forms =>
    match libspec? package form with
    | none => none
    | some requirements => (libspecs? package forms).map (requirements ++ ·)

end

/-- The entries that an item of a reference section stands for. -/
def Entry.ofForm (form : Form) : List Entry :=
  match libspec? [] form with
  | some requirements => requirements.map .requirement
  | none => [.verbatim form]

/-- The classes that an item of an import section names: a class on its own, or a package with the
classes taken from it. -/
def importedClasses? (form : Form) : Option (List Text) :=
  match form with
  | .symbol name => some [name]
  | _ =>
    match form.plainItems?.bind (·.mapM Form.symbolName?) with
    | some [package] => some [package]
    | some (package :: parts) => some (parts.map (package ++ '.' :: ·))
    | _ => none

/-- An import section with the given items. -/
def Section.ofImports (items : List Form) : Section :=
  .imports (items.filterMap importedClasses?).flatten
    (items.filter fun item => (importedClasses? item).isNone)

/-- The section that a form stands for. -/
def Section.ofForm (form : Form) : Section :=
  match form with
  | .seq .list (.keyword keyword :: items) =>
    if referenceKeywords.contains keyword then .references keyword (items.flatMap Entry.ofForm)
    else if keyword = "import".toList then .ofImports items
    else .verbatim form
  | _ => .verbatim form

/-- A form that belongs to the preamble if no section stands before it. -/
def Form.isPreamble : Form → Bool
  | .string _ _ => true
  | .seq .map _ => true
  | _ => false

/-- The declaration with one more of its items. -/
def Declaration.addItem (declaration : Declaration) (form : Form) : Declaration :=
  if declaration.sections.isEmpty && form.isPreamble then
    { declaration with preamble := declaration.preamble ++ [form] }
  else { declaration with sections := declaration.sections ++ [.ofForm form] }

/-- The declaration with the given items behind its head. The first one is the name. -/
def Declaration.ofItems : List Form → Except DeclarationError Declaration
  | [] => .error .noName
  | name :: items =>
    match name.stripNotes with
    | (.symbol module, notes) => .ok (items.foldl Declaration.addItem ⟨module, notes, [], []⟩)
    | (bare, _) => .error (.notSymbol bare)

/-- The items behind the head of a form that is a declaration. -/
def declarationItems? (form : Form) : Option (List Form) :=
  match form.stripNotes.1 with
  | .seq .list (.symbol head :: items) =>
    if head = "ns".toList || head = "clojure.core/ns".toList then some items else none
  | _ => none

/-- A source file: its declaration, the text before it and the text after it. -/
structure SourceFile where
  before : Text
  declaration : Declaration
  body : Text
deriving DecidableEq

/-- Splits a text at its declaration. -/
def SourceFile.parse (text : Text) : Except DeclarationError SourceFile :=
  let (forms, error) := readForms text
  match forms.find? fun spanned => (declarationItems? spanned.form).isSome with
  | some spanned =>
    (Declaration.ofItems ((declarationItems? spanned.form).getD [])).map fun declaration =>
      ⟨text.take spanned.start, declaration, text.drop spanned.stop⟩
  | none =>
    match error with
    | some error => .error (.unreadable error)
    | none => .error .noDeclaration

/-- The declaration of a text. -/
def Declaration.parse (text : Text) : Except DeclarationError Declaration :=
  (SourceFile.parse text).map SourceFile.declaration

end Relocate
