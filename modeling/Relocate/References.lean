import Relocate.Declaration.Parser
import Relocate.Declaration.Printer
import Relocate.ModuleName

/-!
# References to a module

When a module gets a new name, the files that depend on it have to follow. Their declarations are
changed by structure: requirements of the module get the new target, and imported classes below its
flattened name move below the new one. The rest of a file is changed by text: where the name stands
directly before a slash it is replaced, in both spellings and in a single pass, so that replaced
text is never looked at again.
-/
namespace Relocate

/-- The entry after a module has been renamed. -/
def Entry.renameModule (old new : Text) : Entry → Entry
  | .requirement required =>
    .requirement (if required.target = old then required.withTarget new else required)
  | .verbatim form => .verbatim form

/-- The section after a module has been renamed. -/
def Section.renameModule (old new : Text) : Section → Section
  | .references keyword entries => .references keyword (entries.map (Entry.renameModule old new))
  | .imports classes extras =>
    let rebase := ModuleName.rebase (ModuleName.flatten old) (ModuleName.flatten new)
    .imports (classes.map rebase) extras
  | .verbatim form => .verbatim form

/-- The declaration after a module it may depend on has been renamed. Its own name stays. -/
def Declaration.renameModule (old new : Text) (declaration : Declaration) : Declaration :=
  { declaration with sections := declaration.sections.map (Section.renameModule old new) }

/-- Replaces in one pass from left to right what the table holds; the first row that matches
counts. The number says how many characters still belong to the last match. -/
def substitute (table : List (Text × Text)) (skip : Nat) : Text → Text
  | [] => []
  | c :: rest =>
    match skip with
    | skip + 1 => substitute table skip rest
    | 0 =>
      match table.find? fun row => Text.startsWith row.1 (c :: rest) with
      | some row => row.2 ++ substitute table (row.1.length - 1) rest
      | none => c :: substitute table 0 rest

/-- The spellings of a qualified name before and after. A module without hyphens has one spelling,
which becomes the flattened one. -/
def qualifiers (old new : Text) : List (Text × Text) :=
  let flattened := (ModuleName.flatten old ++ ['/'], ModuleName.flatten new ++ ['/'])
  if ModuleName.flatten old = old then [flattened] else [(old ++ ['/'], new ++ ['/']), flattened]

/-- The body of a file after a module has been renamed. -/
def renameInBody (old new body : Text) : Text := substitute (qualifiers old new) 0 body

/-- The text of a file after a module it depends on has been renamed. -/
def renameInText (old new text : Text) : Except DeclarationError Text :=
  (SourceFile.parse text).map fun file =>
    file.before ++ (file.declaration.renameModule old new).render ++ renameInBody old new file.body

end Relocate
