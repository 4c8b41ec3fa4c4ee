import Relocate.Form.Lexeme

/-!
# Reading forms

The reader keeps a stack of what is still open: sequences that wait for their closing bracket, and
marks and metadata that wait for the form they apply to. Each step takes one lexeme, so the length
of the text bounds the number of steps.

Forms nest here to any depth. A reader that recurs into each open bracket is bounded by its call
stack, and gives up at some five hundred open brackets. That limit is not modelled.

`readForm` reads the next form at a cursor. `readForms` reads all forms of a text with their spans,
up to the first failure.
-/
namespace Relocate

/-- Something still open while a form is read. -/
inductive Frame where
  /-- A sequence, the position of its bracket and its items so far, the last one first. -/
  | seq (bracket : Bracket) (position : Int) (items : List Form)
  /-- A mark that waits for its form. -/
  | mark (text gap : Text)
  /-- The next form is metadata. -/
  | note
  /-- Metadata that waits for its form. -/
  | noted (note : Form)

/-- Hands a complete form to what is open. Either it completes everything, or something stays
open. -/
def feed : List Frame → Form → Form ⊕ List Frame
  | [], form => .inl form
  | .seq bracket position items :: frames, form =>
    .inr (.seq bracket position (form :: items) :: frames)
  | .mark text gap :: frames, form => feed frames (.marked text gap form)
  | .note :: frames, form => .inr (.noted form :: frames)
  | .noted note :: frames, form => feed frames (.annotated note form)

/-- The end of the input: a sequence on top of the stack is unterminated, all else lacks a form. -/
def endOfInput (frames : List Frame) (cursor : Cursor) : ReadFailure :=
  match frames with
  | .seq bracket position _ :: _ => ⟨⟨.unterminated bracket, position⟩, cursor⟩
  | _ => ⟨⟨.endOfInput, cursor.position⟩, cursor⟩

/-- Reads on with the given frames open. The first argument bounds the number of lexemes. -/
def readWith : Nat → List Frame → Cursor → Except ReadFailure (Form × Cursor)
  | 0, frames, cursor => .error (endOfInput frames cursor)
  | fuel + 1, frames, cursor =>
    let here := cursor.skipLayout
    if here.rest.isEmpty then .error (endOfInput frames here)
    else
      match scanLexeme here with
      | .error failure => .error failure
      | .ok (.opening bracket position, after) =>
        readWith fuel (.seq bracket position [] :: frames) after
      | .ok (.note, after) => readWith fuel (.note :: frames) after
      | .ok (.mark text gap, after) => readWith fuel (.mark text gap :: frames) after
      | .ok (.leaf form, after) =>
        match feed frames form with
        | .inl complete => .ok (complete, after)
        | .inr open' => readWith fuel open' after
      | .ok (.closing delimiter, after) =>
        match frames with
        | .seq bracket _ items :: outer =>
          if bracket.closing = delimiter then
            match feed outer (.seq bracket items.reverse) with
            | .inl complete => .ok (complete, after)
            | .inr open' => readWith fuel open' after
          else here.fail (.unmatched delimiter)
        | _ => here.fail (.unmatched delimiter)

/-- Reads the next form. Every lexeme takes at least one character, so the characters left bound
their number. -/
def readForm (cursor : Cursor) : Except ReadFailure (Form × Cursor) :=
  readWith (cursor.rest.length + 1) [] cursor

/-- A form and the offsets between which it stands. -/
structure Spanned where
  form : Form
  start : Nat
  stop : Nat
deriving DecidableEq

/-- The forms from a cursor on, up to the first failure. The first argument bounds their number. -/
def readFormsWith : Nat → Cursor → List Spanned × Option ReadError
  | 0, _ => ([], none)
  | fuel + 1, cursor =>
    let here := cursor.skipLayout
    if here.rest.isEmpty then ([], none)
    else
      match readForm here with
      | .error failure => ([], some failure.error)
      | .ok (form, after) =>
        let (forms, error) := readFormsWith fuel after
        (⟨form, here.offset, after.offset⟩ :: forms, error)

/-- All forms of a text with their spans, and the error that stopped reading if one did. -/
def readForms (text : Text) : List Spanned × Option ReadError :=
  readFormsWith (text.length + 1) (Cursor.ofText text 0)

end Relocate
