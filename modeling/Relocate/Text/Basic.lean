/-!
# Text

Source code, module names and paths are texts: lists of characters. Offsets, lengths and cuts count
characters, so a position in a file is a number of characters whatever their encoding.

The order of texts is the order of their code points, character by character; it is the order in
which every listing is written. Sets of texts are kept as sorted lists without repetition.
-/
namespace Relocate

/-- Puts an item before the first one that is not smaller. -/
def insertBy {α : Type} (le : α → α → Bool) (item : α) : List α → List α
  | [] => [item]
  | other :: rest =>
    if le item other then item :: other :: rest else other :: insertBy le item rest

/-- The items in order, equal ones as they stood. -/
def sortBy {α : Type} (le : α → α → Bool) (items : List α) : List α :=
  items.foldr (insertBy le) []

/-- A text is the list of its characters. -/
abbrev Text := List Char

namespace Text

/-- Every occurrence of one character becomes another. -/
def replaceChar (old new : Char) (t : Text) : Text :=
  t.map fun c => if c = old then new else c

/-- The pieces between the separators, empty ones included. A text without separator is one
piece. -/
def split (separator : Char) : Text → List Text
  | [] => [[]]
  | c :: rest =>
    if c = separator then [] :: split separator rest
    else
      match split separator rest with
      | [] => [[c]]
      | piece :: pieces => (c :: piece) :: pieces

/-- The pieces in one text, with the separator between neighbours. -/
def join (separator : Text) : List Text → Text
  | [] => []
  | [piece] => piece
  | piece :: pieces => piece ++ separator ++ join separator pieces

/-- Drops every leading occurrence of the character. -/
def trimStart (c : Char) (t : Text) : Text := t.dropWhile (· = c)

/-- Drops every trailing occurrence of the character. -/
def trimEnd (c : Char) (t : Text) : Text := (trimStart c t.reverse).reverse

/-- Drops the character at both ends. -/
def trim (c : Char) (t : Text) : Text := trimEnd c (trimStart c t)

/-- Cuts at the last occurrence of the separator, which belongs to neither part. -/
def splitLast? (separator : Char) (t : Text) : Option (Text × Text) :=
  match t.reverse.span (· ≠ separator) with
  | (_, []) => none
  | (after, _ :: before) => some (before.reverse, after.reverse)

/-- The text starts with the given one. -/
def startsWith (start t : Text) : Bool := start.isPrefixOf t

/-- The text ends with the given one. -/
def endsWith (ending t : Text) : Bool := ending.reverse.isPrefixOf t.reverse

/-- Replaces the first occurrence of `old`, if there is one. -/
def replaceFirst (old new : Text) : Text → Text
  | [] => if old = [] then new else []
  | c :: rest =>
    if startsWith old (c :: rest) then new ++ (c :: rest).drop old.length
    else c :: replaceFirst old new rest

/-- The order of texts by code point; of two texts where one continues the other, the shorter is
the smaller. -/
def le : Text → Text → Bool
  | [], _ => true
  | _ :: _, [] => false
  | c :: s, d :: t => if c = d then le s t else decide (c.toNat < d.toNat)

/-- The texts in order, repetitions kept. -/
def sort (texts : List Text) : List Text := sortBy le texts

/-- The distinct texts in order of first occurrence. -/
def distinct : List Text → List Text
  | [] => []
  | t :: rest => t :: (distinct rest).filter (· ≠ t)

/-- The set of the texts: in order and without repetition. -/
def sortedSet (texts : List Text) : List Text := sort (distinct texts)

end Text

end Relocate
