import Relocate.Text.Basic

/-!
# Control sequences

A control sequence asks a terminal for something, such as another colour. It is made of an escape
character, an opening bracket, any number of parameters, any number of intermediates, and one final
character. A text that goes to no terminal is shown without them.
-/
namespace Relocate.Text

/-- A digit or one of the signs that may stand among them. -/
def isParameter (c : Char) : Bool := '0' ≤ c && c ≤ '?'

/-- A space or one of the signs before the digits. -/
def isIntermediate (c : Char) : Bool := ' ' ≤ c && c ≤ '/'

/-- A letter or one of the signs around them. -/
def isFinal (c : Char) : Bool := '@' ≤ c && c ≤ '~'

/-- What stands behind the control sequence that a text starts with, if it does. -/
def afterSequence? : Text → Option Text
  | '\x1b' :: '[' :: rest =>
    match (rest.dropWhile isParameter).dropWhile isIntermediate with
    | [] => none
    | final :: rest => if isFinal final then some rest else none
  | _ => none

/-- The text without its control sequences, and without a number of characters in front. -/
def dropSequencesAfter : Nat → Text → Text
  | _, [] => []
  | skipped + 1, _ :: rest => dropSequencesAfter skipped rest
  | 0, c :: rest =>
    match afterSequence? (c :: rest) with
    | some after => dropSequencesAfter (rest.length - after.length) rest
    | none => c :: dropSequencesAfter 0 rest

/-- The text without its control sequences. -/
def dropSequences (t : Text) : Text := dropSequencesAfter 0 t

end Relocate.Text
