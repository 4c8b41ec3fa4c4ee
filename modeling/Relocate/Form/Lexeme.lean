import Relocate.Form.Basic
import Relocate.Text.Digit
import Relocate.Text.Quoted

/-!
# Lexemes

Source code is read lexeme by lexeme: a bracket, a mark that applies to the next form, or a form
without parts. Between lexemes stands layout: spaces, tabs, line ends, commas and comments, which
run from a semicolon to the end of the line.

A cursor is a place in the text with what is read from there on. A failure names the position it is
about and carries the cursor where reading stopped, which need not be the same place.

A position before the start of the text counts from its end. Reading then passes the end of the text
and goes on at its start. What a lexeme spells is cut out of the text between its two ends, and such
a cut does not go round, nor does a comment, nor a mark of several characters: these end with the
text.
-/
namespace Relocate

/-- A place in a text. It lies at or behind the start, where `before` is zero, or before the start,
where `offset` is zero. -/
structure Cursor where
  /-- How many characters the place lies before the start of the text. -/
  before : Nat
  /-- How many characters the place lies behind the start of the text. -/
  offset : Nat
  /-- What is read from the place on. -/
  rest : Text
deriving DecidableEq, Repr

/-- Why a position is no place of a text. -/
inductive PositionError where
  /-- It lies further before the start than the text is long. -/
  | beforeText
deriving DecidableEq, Repr

def PositionError.message : PositionError → String
  | .beforeText => "string index out of range"

namespace Cursor

/-- The place at an offset of a text; past the end nothing is left. -/
def ofText (text : Text) (offset : Nat) : Cursor := ⟨0, offset, text.drop offset⟩

/-- The place at a position of a text. From one before the start, the end of the text is read first
and then the whole text. -/
def ofPosition (text : Text) : Int → Except PositionError Cursor
  | .ofNat offset => .ok (ofText text offset)
  | .negSucc before =>
    if before < text.length then
      .ok ⟨before + 1, 0, text.drop (text.length - (before + 1)) ++ text⟩
    else .error .beforeText

/-- The position of a place, negative before the start. -/
def position (cursor : Cursor) : Int := (cursor.offset : Int) - cursor.before

/-- The place after the next `count` characters. -/
def advance (cursor : Cursor) (count : Nat) : Cursor :=
  ⟨cursor.before - count, cursor.offset + (count - cursor.before), cursor.rest.drop count⟩

/-- The text from a place to the end. -/
def ahead (cursor : Cursor) : Text :=
  if cursor.before = 0 then cursor.rest else cursor.rest.take cursor.before

/-- The same place counted from the start of the text. From there nothing is read twice. -/
def settle (cursor : Cursor) : Cursor :=
  if cursor.before = 0 then cursor
  else ⟨0, cursor.rest.length - 2 * cursor.before, cursor.ahead⟩

/-- The part of the text between a place and the one `count` characters on. If reading passes the
end of the text in between, the second place may come first in the text; then the part is empty. -/
def cut (cursor : Cursor) (count : Nat) : Text :=
  if cursor.before = 0 || count < cursor.before then cursor.rest.take count
  else cursor.rest.take (count - (cursor.rest.length - cursor.before))

end Cursor

/-- What can be wrong with source code. -/
inductive ReadProblem where
  | endOfInput
  | endAfterHash
  | unmatched (delimiter : Char)
  | unterminated (bracket : Bracket)
  | unterminatedString
  | unsupportedDispatch (after : Char)
  /-- An atom whose cut is empty. -/
  | unexpected (c : Char)
deriving DecidableEq, Repr

/-- A problem and the position that it is about. -/
structure ReadError where
  problem : ReadProblem
  position : Int
deriving DecidableEq, Repr

/-- A failed attempt to read: the error, and the place where reading stopped. -/
structure ReadFailure where
  error : ReadError
  stopped : Cursor
deriving DecidableEq, Repr

def ReadProblem.message : ReadProblem → String
  | .endOfInput => "Unexpected end of input"
  | .endAfterHash => "Unexpected end of input after '#'"
  | .unmatched delimiter => "Unmatched delimiter " ++ String.ofList (['\x27', delimiter, '\x27'])
  | .unterminated bracket => "Unterminated " ++ bracket.word
  | .unterminatedString => "Unterminated string"
  | .unsupportedDispatch after =>
    "Unsupported dispatch " ++ String.ofList (['\x27', '#', after, '\x27'])
  | .unexpected c => "Unexpected character " ++ String.ofList (Text.quoted [c])

def ReadError.message (error : ReadError) : String :=
  error.problem.message ++ " (at offset " ++ toString error.position ++ ")"

/-- Stops at a cursor with a problem about its own position. -/
def Cursor.fail {α : Type} (cursor : Cursor) (problem : ReadProblem) : Except ReadFailure α :=
  .error ⟨⟨problem, cursor.position⟩, cursor⟩

/-- Space between lexemes, comments apart. -/
def isSpace (c : Char) : Bool :=
  c = ' ' || c = '\t' || c = '\r' || c = '\n' || c = ','

/-- The characters that end an atom. -/
def isTerminator (c : Char) : Bool :=
  isSpace c || c = '(' || c = ')' || c = '[' || c = ']' || c = '{' || c = '}' || c = '"' || c = ';'

mutual

/-- Skips layout at an offset. -/
def skipLayout (offset : Nat) : Text → Cursor
  | [] => ⟨0, offset, []⟩
  | c :: rest =>
    if isSpace c then skipLayout (offset + 1) rest
    else if c = ';' then skipComment (offset + 1) rest
    else ⟨0, offset, c :: rest⟩

/-- Skips a comment and the layout after it. -/
def skipComment (offset : Nat) : Text → Cursor
  | [] => ⟨0, offset, []⟩
  | c :: rest => if c = '\n' then skipLayout (offset + 1) rest else skipComment (offset + 1) rest

end

/-- The next place that is not layout. A comment before the start of the text leads to a place
behind the start. -/
def Cursor.skipLayout (cursor : Cursor) : Cursor :=
  if cursor.before = 0 then Relocate.skipLayout cursor.offset cursor.rest
  else
    let here := cursor.advance (cursor.rest.takeWhile isSpace).length
    if here.before = 0 || here.rest.head? = some ';' then
      Relocate.skipLayout here.settle.offset here.settle.rest
    else here

/-- Only layout is left. -/
def Cursor.atEnd (cursor : Cursor) : Bool := cursor.skipLayout.rest.isEmpty

/-- The longest run of characters that an atom may hold. -/
def atomText (text : Text) : Text := text.takeWhile fun c => !isTerminator c

/-- The text of an atom that is neither a symbol nor a keyword: a constant, or a number with or
without sign. -/
def isLiteral (atom : Text) : Bool :=
  atom = "nil".toList || atom = "true".toList || atom = "false".toList ||
    match atom with
    | sign :: c :: _ => if sign = '+' || sign = '-' then Text.isDigit c else Text.isDigit sign
    | [c] => Text.isDigit c
    | [] => false

/-- The form that an atom stands for. -/
def Form.ofAtom (atom : Text) : Form :=
  match atom with
  | ':' :: name => .keyword name
  | _ => if isLiteral atom then .token atom else .symbol atom

/-- Reads a string from behind its opening quote: its value, and the number of characters up to and
including the closing quote. A backslash takes the next character as it is. -/
def scanString : Text → Option (Text × Nat)
  | [] => none
  | '"' :: _ => some ([], 1)
  | '\\' :: c :: rest => (scanString rest).map fun (value, count) => (c :: value, count + 2)
  | c :: rest => (scanString rest).map fun (value, count) => (c :: value, count + 1)

/-- One step of reading. -/
inductive Lexeme where
  /-- A bracket opens a sequence; the position is that of its last character. -/
  | opening (bracket : Bracket) (position : Int)
  /-- A closing bracket. -/
  | closing (delimiter : Char)
  /-- The next form is metadata of the one after it. -/
  | note
  /-- The mark applies to the next form. -/
  | mark (text gap : Text)
  /-- A form without parts. -/
  | leaf (form : Form)
deriving DecidableEq

/-- A string at the cursor, which stands on its opening quote: its value, its spelling and the place
behind it. -/
def scanQuoted (cursor : Cursor) : Except ReadFailure (Text × Text × Cursor) :=
  match scanString (cursor.rest.drop 1) with
  | none => cursor.fail .unterminatedString
  | some (value, count) => .ok (value, cursor.cut (count + 1), cursor.advance (count + 1))

/-- The lexeme at a hash sign. -/
def scanDispatch (start : Cursor) : Except ReadFailure (Lexeme × Cursor) :=
  let cursor := start.advance 1
  match cursor.rest with
  | [] => .error ⟨⟨.endAfterHash, start.position⟩, cursor⟩
  | '{' :: _ => .ok (.opening .set cursor.position, cursor.advance 1)
  | '"' :: _ =>
    match scanQuoted cursor with
    | .error failure => .error failure
    | .ok (_, raw, after) => .ok (.leaf (.token ('#' :: raw)), after)
  | '_' :: _ => .ok (.mark ['#', '_'] [], cursor.advance 1)
  | '\x27' :: _ => .ok (.mark ['#', '\x27'] [], cursor.advance 1)
  | '?' :: _ =>
    if Text.startsWith ['#', '?', '@'] start.ahead then
      .ok (.mark ['#', '?', '@'] [], cursor.advance 2)
    else .ok (.mark ['#', '?'] [], cursor.advance 1)
  | '(' :: _ => .ok (.mark ['#'] [], cursor)
  | c :: _ =>
    let count := (atomText cursor.rest).length
    match cursor.cut count with
    | [] => .error ⟨⟨.unsupportedDispatch c, start.position⟩, cursor.advance count⟩
    | ':' :: name => .ok (.mark ('#' :: ':' :: name) [], cursor.advance count)
    | tag => .ok (.mark ('#' :: tag) [' '], cursor.advance count)

/-- A character literal: the backslash, the character after it whatever it is, and the run of atom
characters behind. A backslash that ends the text counts as if a character followed. -/
def scanCharacter (cursor : Cursor) : Lexeme × Cursor :=
  let count := (atomText (cursor.rest.drop 2)).length + 2
  (.leaf (.token (cursor.cut count)), cursor.advance count)

/-- An atom at the cursor, which stands on its first character. Within the text its cut is never
empty. -/
def scanAtom (first : Char) (cursor : Cursor) : Except ReadFailure (Lexeme × Cursor) :=
  let count := (atomText cursor.rest).length
  match cursor.cut count with
  | [] => .error ⟨⟨.unexpected first, cursor.position⟩, cursor.advance count⟩
  | atom => .ok (.leaf (.ofAtom atom), cursor.advance count)

/-- The lexeme at the cursor, which does not stand on layout. -/
def scanLexeme (cursor : Cursor) : Except ReadFailure (Lexeme × Cursor) :=
  match cursor.rest with
  | [] => cursor.fail .endOfInput
  | '(' :: _ => .ok (.opening .list cursor.position, cursor.advance 1)
  | '[' :: _ => .ok (.opening .vector cursor.position, cursor.advance 1)
  | '{' :: _ => .ok (.opening .map cursor.position, cursor.advance 1)
  | ')' :: _ => .ok (.closing ')', cursor.advance 1)
  | ']' :: _ => .ok (.closing ']', cursor.advance 1)
  | '}' :: _ => .ok (.closing '}', cursor.advance 1)
  | '"' :: _ =>
    match scanQuoted cursor with
    | .error failure => .error failure
    | .ok (value, raw, after) => .ok (.leaf (.string value raw), after)
  | '^' :: _ => .ok (.note, cursor.advance 1)
  | '~' :: _ =>
    if Text.startsWith ['~', '@'] cursor.ahead then .ok (.mark ['~', '@'] [], cursor.advance 2)
    else .ok (.mark ['~'] [], cursor.advance 1)
  | '\x27' :: _ => .ok (.mark ['\x27'] [], cursor.advance 1)
  | '\x60' :: _ => .ok (.mark ['\x60'] [], cursor.advance 1)
  | '@' :: _ => .ok (.mark ['@'] [], cursor.advance 1)
  | '#' :: _ => scanDispatch cursor
  | '\\' :: _ => .ok (scanCharacter cursor)
  | c :: _ => scanAtom c cursor

end Relocate
