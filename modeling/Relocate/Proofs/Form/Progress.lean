import Relocate.Proofs.Form.Spelling

/-!
# The reader makes progress

The reader takes one lexeme after the other. `Reading.step` is one such step, without any bound on
their number, and `Runs` is a finite sequence of them. Each step moves the cursor on, so there are
no more steps than characters from the start to the end of the text, and the bound that the reader
is given is never what stops it.

Positions before the start of the text are included here: from there the end of the text is read
first, and then the whole text. Only from such a position an atom can come out empty.
-/
namespace Relocate

namespace Cursor

variable {text : Text} {cursor : Cursor}

/-- The cursor is a place of the text: what is read from it is the end of the text as far as the
place lies before the start, and then the text from the offset on. -/
structure In (text : Text) (cursor : Cursor) : Prop where
  bounded : cursor.before ≤ text.length
  oneSided : cursor.before = 0 ∨ cursor.offset = 0
  rest : cursor.rest = text.drop (text.length - cursor.before) ++ text.drop cursor.offset

/-- The place at an offset is one of the text, also behind its end. -/
theorem in_ofText (text : Text) (offset : Nat) : (ofText text offset).In text where
  bounded := Nat.zero_le _
  oneSided := .inl rfl
  rest := by simp [ofText]

/-- The position of the place at an offset is the offset. -/
@[simp] theorem position_ofText (text : Text) (offset : Nat) :
    (ofText text offset).position = offset := by
  simp [position, ofText]

/-- From a place that is not before the start the text is read from the offset on. -/
theorem In.rest_behind (placed : cursor.In text) (behind : cursor.before = 0) :
    cursor.rest = text.drop cursor.offset := by
  simpa [behind] using placed.rest

/-- A place at or behind the start has its offset for a position. -/
theorem position_behind (behind : cursor.before = 0) : cursor.position = cursor.offset := by
  simp [position, behind]

/-- A position of a text that is one is that of a place. -/
theorem in_of_ofPosition {position : Int} (placed : ofPosition text position = .ok cursor) :
    cursor.In text ∧ cursor.position = position := by
  cases position with
  | ofNat offset =>
    obtain rfl := Except.ok.inj placed
    exact ⟨in_ofText text offset, position_ofText text offset⟩
  | negSucc before =>
    rw [ofPosition] at placed
    split at placed
    · rename_i inside
      obtain rfl := Except.ok.inj placed
      exact ⟨⟨inside, .inr rfl, by simp⟩, by simp [Cursor.position, Int.negSucc_eq]⟩
    · simp at placed

/-- The characters that are read from a place are those from its position to the end. -/
theorem In.length (placed : cursor.In text) :
    cursor.rest.length = ((text.length : Int) - cursor.position).toNat := by
  rw [placed.rest, List.length_append, List.length_drop, List.length_drop, position]
  have bounded := placed.bounded
  obtain behind | before := placed.oneSided <;> omega

/-- Advancing by some characters adds their number to the position, across the start of the text,
too. -/
@[simp] theorem position_advance (cursor : Cursor) (count : Nat) :
    (cursor.advance count).position = cursor.position + count := by
  simp only [position, advance]
  omega

/-- Advancing twice is advancing once by both numbers. -/
@[simp] theorem advance_advance (cursor : Cursor) (first second : Nat) :
    (cursor.advance first).advance second = cursor.advance (first + second) := by
  simp only [advance, List.drop_drop, Cursor.mk.injEq, and_true]
  omega

/-- The place some characters on is one of the text. Passing the start drops what is left of the end
of the text and goes on with the text itself. -/
theorem In.advance (placed : cursor.In text) (count : Nat) : (cursor.advance count).In text where
  bounded := Nat.le_trans (Nat.sub_le _ _) placed.bounded
  oneSided := by
    have oneSided := placed.oneSided
    simp only [Cursor.advance]
    omega
  rest := by
    have bounded := placed.bounded
    have first : (text.drop (text.length - cursor.before)).length = cursor.before := by
      rw [List.length_drop]
      omega
    simp only [Cursor.advance, placed.rest, List.drop_append, first, List.drop_drop]
    congr 1
    by_cases inside : count ≤ cursor.before
    · congr 1
      omega
    · rw [List.drop_eq_nil_of_le (by omega), List.drop_eq_nil_of_le (by omega)]

/-- The same place counted from the start of the text. -/
theorem In.settle (placed : cursor.In text) (before : cursor.before ≠ 0) :
    cursor.settle = ofText text (text.length - cursor.before) := by
  have bounded := placed.bounded
  have start : cursor.offset = 0 := placed.oneSided.resolve_left before
  have size : (text.drop (text.length - cursor.before)).length = cursor.before := by
    rw [List.length_drop]
    omega
  have length : cursor.rest.length - 2 * cursor.before = text.length - cursor.before := by
    rw [placed.rest, List.length_append, size, start, List.drop_zero]
    omega
  rw [Cursor.settle, if_neg before, length, ahead, if_neg before, placed.rest, ofText,
    List.take_append_of_le_length (by omega), List.take_of_length_le (by omega)]

end Cursor

mutual

/-- Skipping layout moves on within the text. -/
theorem skipLayout_moves (offset : Nat) : (text : Text) →
    ∃ count ≤ text.length, skipLayout offset text = ⟨0, offset + count, text.drop count⟩
  | [] => ⟨0, Nat.le_refl _, rfl⟩
  | c :: rest => by
    rw [skipLayout]
    split
    · obtain ⟨count, within, moved⟩ := skipLayout_moves (offset + 1) rest
      exact ⟨count + 1, Nat.succ_le_succ within, by rw [moved]; simp; omega⟩
    · split
      · obtain ⟨count, within, moved⟩ := skipComment_moves (offset + 1) rest
        exact ⟨count + 1, Nat.succ_le_succ within, by rw [moved]; simp; omega⟩
      · exact ⟨0, Nat.zero_le _, rfl⟩

/-- Skipping a comment moves on by some characters of the text, with the layout behind it. -/
theorem skipComment_moves (offset : Nat) : (text : Text) →
    ∃ count ≤ text.length, skipComment offset text = ⟨0, offset + count, text.drop count⟩
  | [] => ⟨0, Nat.le_refl _, rfl⟩
  | c :: rest => by
    rw [skipComment]
    split
    · obtain ⟨count, within, moved⟩ := skipLayout_moves (offset + 1) rest
      exact ⟨count + 1, Nat.succ_le_succ within, by rw [moved]; simp; omega⟩
    · obtain ⟨count, within, moved⟩ := skipComment_moves (offset + 1) rest
      exact ⟨count + 1, Nat.succ_le_succ within, by rw [moved]; simp; omega⟩

end

namespace Cursor

variable {text : Text} {cursor : Cursor}

/-- From the start of the text on, skipping layout leads to a place at or behind the cursor. -/
theorem skipLayout_ofText (text : Text) (offset : Nat) :
    ∃ later, offset ≤ later ∧ later ≤ max offset text.length ∧
      Relocate.skipLayout offset (text.drop offset) = ofText text later := by
  obtain ⟨count, within, moved⟩ := skipLayout_moves offset (text.drop offset)
  rw [List.length_drop] at within
  exact ⟨offset + count, by omega, by omega, by rw [moved, List.drop_drop]; rfl⟩

/-- Skipping layout leads to a place at or behind the cursor. By cases on whether the cursor lies
before the start of the text; if it does, spaces are passed first. -/
theorem In.skipLayout (placed : cursor.In text) :
    cursor.skipLayout.In text ∧ cursor.position ≤ cursor.skipLayout.position ∧
      cursor.skipLayout.position ≤ max cursor.position text.length := by
  have within (offset : Nat) (behind : cursor.position ≤ offset)
      (bound : (offset : Int) ≤ max cursor.position text.length) :
      (Relocate.skipLayout offset (text.drop offset)).In text ∧
        cursor.position ≤ (Relocate.skipLayout offset (text.drop offset)).position ∧
        (Relocate.skipLayout offset (text.drop offset)).position ≤
          max cursor.position text.length := by
    obtain ⟨later, behindOffset, laterBound, same⟩ := skipLayout_ofText text offset
    rw [same, position_ofText]
    exact ⟨in_ofText text later, by omega, by omega⟩
  unfold Cursor.skipLayout
  split
  · rename_i behind
    have position := position_behind behind
    rw [placed.rest_behind behind]
    exact within cursor.offset (by omega) (by omega)
  · have placedHere := placed.advance (cursor.rest.takeWhile isSpace).length
    have moved := position_advance cursor (cursor.rest.takeWhile isSpace).length
    have spaces := (List.takeWhile_prefix isSpace (l := cursor.rest)).length_le
    have length := placed.length
    generalize cursor.advance (cursor.rest.takeWhile isSpace).length = here at placedHere moved
    dsimp only
    split
    · by_cases behind : here.before = 0
      · have position := position_behind behind
        rw [Cursor.settle, if_pos behind, placedHere.rest_behind behind]
        exact within here.offset (by omega) (by omega)
      · have bounded := placedHere.bounded
        have position : here.position = -here.before := by
          simp [Cursor.position, placedHere.oneSided.resolve_left behind]
        rw [placedHere.settle behind]
        exact within (text.length - here.before) (by omega) (by omega)
    · exact ⟨placedHere, by omega, by omega⟩

/-- The position is that of the cursor or the one behind it. -/
def Near (here : Cursor) (position : Int) : Prop :=
  here.position ≤ position ∧ position ≤ here.position + 1

/-- A position is near itself. -/
@[simp] theorem near_position (here : Cursor) : here.Near here.position := ⟨by omega, by omega⟩

/-- The next position is near. -/
@[simp] theorem near_advance (here : Cursor) : here.Near (here.advance 1).position := by
  rw [position_advance]
  exact ⟨by omega, by omega⟩

end Cursor

/-- What scanning a lexeme can do: it takes some characters, among them at most one that counts
although the text has ended, or it fails at the cursor or one position behind it. Where a lexeme
starts at or behind the start of the text, no character is unexpected. -/
inductive Scanned (here : Cursor) : Except ReadFailure (Lexeme × Cursor) → Prop where
  | taken (lexeme : Lexeme) (count : Nat) (positive : 0 < count)
      (within : count ≤ here.rest.length + 1)
      (opened : ∀ bracket position, lexeme = .opening bracket position → here.Near position) :
      Scanned here (.ok (lexeme, here.advance count))
  | failed (failure : ReadFailure) (near : here.Near failure.error.position)
      (expected : here.before = 0 → StartsLexeme here.rest →
        ∀ c, failure.error.problem ≠ .unexpected c) :
      Scanned here (.error failure)

section Scanning

variable {here : Cursor}

/-- The atom at the start of a text is no longer than the text. -/
theorem length_atomText_le (text : Text) : (atomText text).length ≤ text.length :=
  (List.takeWhile_prefix _).length_le

/-- Nothing is cut out between a place and itself. -/
theorem pos_of_cut {count : Nat} (nonempty : here.cut count ≠ []) : 0 < count := by
  cases count with
  | zero =>
    refine absurd ?_ nonempty
    by_cases behind : here.before = 0
    · simp [Cursor.cut, behind]
    · simp [Cursor.cut, Nat.pos_of_ne_zero behind]
  | succ count => exact Nat.succ_pos count

/-- A string takes the characters up to its closing quote, or it fails at its opening one. -/
theorem scanQuoted_cases (here : Cursor) :
    (∃ value raw count, count ≤ here.rest.length ∧
      scanQuoted here = .ok (value, raw, here.advance (count + 1))) ∨
      scanQuoted here = here.fail .unterminatedString := by
  rw [scanQuoted]
  cases scanned : scanString (here.rest.drop 1) with
  | none => exact .inr rfl
  | some found =>
    obtain ⟨value, count⟩ := found
    have within := (scanString_take _ _ _ scanned).1
    rw [List.length_drop] at within
    exact .inl ⟨value, here.cut (count + 1), count, by omega, rfl⟩

/-- Behind a hash sign a mark or a set is taken, or the lexeme is refused at the sign or behind it.
-/
theorem scanned_scanDispatch (nonempty : here.rest ≠ []) : Scanned here (scanDispatch here) := by
  have length := List.length_pos_iff.mpr nonempty
  have rest : (here.advance 1).rest.length = here.rest.length - 1 := by simp [Cursor.advance]
  have mark (text gap : Text) (count : Nat) (positive : 0 < count)
      (within : count ≤ here.rest.length + 1) :
      Scanned here (.ok (.mark text gap, here.advance count)) :=
    .taken _ count positive within (by simp)
  simp only [scanDispatch]
  split
  · exact .failed _ here.near_position (by simp)
  · rw [Cursor.advance_advance]
    refine .taken _ 2 (by omega) (by omega) ?_
    rintro bracket position same
    obtain ⟨-, rfl⟩ := Lexeme.opening.inj same
    exact here.near_advance
  · obtain ⟨value, raw, count, within, quoted⟩ | failed := scanQuoted_cases (here.advance 1)
    · rw [quoted]
      simp only [Cursor.advance_advance]
      exact .taken _ _ (by omega) (by omega) (by simp)
    · rw [failed]
      exact .failed _ here.near_advance (by simp)
  · simpa using mark _ _ _ (by omega) (by omega)
  · simpa using mark _ _ _ (by omega) (by omega)
  · rename_i after same
    have second : 0 < (here.advance 1).rest.length := by simp [same]
    rw [Cursor.advance_advance, Cursor.advance_advance]
    split
    · exact mark _ _ _ (by omega) (by omega)
    · exact mark _ _ _ (by omega) (by omega)
  · exact mark _ _ _ (by omega) (by omega)
  · have run := length_atomText_le (here.advance 1).rest
    rw [Cursor.advance_advance]
    split
    · exact .failed _ here.near_position (by simp)
    · exact mark _ _ _ (by omega) (by omega)
    · exact mark _ _ _ (by omega) (by omega)

/-- Where something is left, the scanner takes a lexeme or fails close to the cursor. By cases on
the first character. All but a string and a hash sign take a number of characters that is positive
and within the text. -/
theorem scanned_scanLexeme (proper : here.rest ≠ []) : Scanned here (scanLexeme here) := by
  have length := List.length_pos_iff.mpr proper
  have plain (lexeme : Lexeme) (count : Nat) (positive : 0 < count)
      (within : count ≤ here.rest.length + 1)
      (other : ∀ bracket position, lexeme ≠ .opening bracket position) :
      Scanned here (.ok (lexeme, here.advance count)) :=
    .taken _ count positive within fun bracket position same => absurd same (other bracket position)
  have opening (bracket : Bracket) :
      Scanned here (.ok (.opening bracket here.position, here.advance 1)) := by
    refine .taken _ 1 (by omega) (by omega) ?_
    rintro _ position same
    obtain ⟨-, rfl⟩ := Lexeme.opening.inj same
    exact here.near_position
  rw [scanLexeme]
  split
  case h_1 empty => exact absurd empty proper
  case h_2 | h_3 | h_4 => exact opening _
  case h_8 =>
    obtain ⟨value, raw, count, within, quoted⟩ | failed := scanQuoted_cases here
    · rw [quoted]
      exact plain _ _ (by omega) (by omega) (by simp)
    · rw [failed]
      exact .failed _ here.near_position (by simp)
  case h_10 =>
    split
    · exact plain _ _ (by omega) (by omega) (by simp)
    · exact plain _ _ (by omega) (by omega) (by simp)
  case h_14 => exact scanned_scanDispatch proper
  case h_15 =>
    have run := length_atomText_le (here.rest.drop 2)
    rw [List.length_drop] at run
    exact plain _ _ (by omega) (by omega) (by simp)
  case h_16 c tail notList notVector notMap endList endVector endMap notString notNote notUnquote
      notQuote notTemplate notDeref notHash notCharacter same =>
    have run := length_atomText_le here.rest
    simp only [scanAtom]
    split
    · rename_i missing
      refine .failed _ here.near_position fun behind starts _ _ => ?_
      -- The cut is the atom text, which holds at least the character that starts the lexeme.
      have empty : atomText here.rest = [] := by
        rw [← cut_atomText 0, ← missing]
        simp [Cursor.cut, behind]
      obtain ⟨first, rest, split, notSpace, notComment⟩ := starts
      obtain ⟨rfl, -⟩ := List.cons.inj (same.symm.trans split)
      have continues : isTerminator c = false := by
        simp_all [isTerminator]
      simp [atomText, same, continues] at empty
    · rename_i nonempty
      exact plain _ _ (pos_of_cut nonempty) (by omega) (by simp)
  all_goals exact plain _ _ (by omega) (by omega) (by simp)

end Scanning

/-- How reading ends. -/
abbrev ReadOutcome := Except ReadFailure (Form × Cursor)

/-- Where the reader stands: what is open, and the place in the text. -/
structure Reading where
  frames : List Frame
  cursor : Cursor

namespace Reading

/-- A complete form has been handed to what is open. -/
def handedOver (outcome : Form ⊕ List Frame) (after : Cursor) : ReadOutcome ⊕ Reading :=
  match outcome with
  | .inl complete => .inl (.ok (complete, after))
  | .inr frames => .inr ⟨frames, after⟩

/-- Takes a lexeme that stands at the cursor `here`. -/
def take (frames : List Frame) (here : Cursor) (lexeme : Lexeme) (after : Cursor) :
    ReadOutcome ⊕ Reading :=
  match lexeme with
  | .opening bracket position => .inr ⟨.seq bracket position [] :: frames, after⟩
  | .note => .inr ⟨.note :: frames, after⟩
  | .mark mark gap => .inr ⟨.mark mark gap :: frames, after⟩
  | .leaf form => handedOver (feed frames form) after
  | .closing delimiter =>
    match frames with
    | .seq bracket _ items :: outer =>
      if bracket.closing = delimiter then
        handedOver (feed outer (.seq bracket items.reverse)) after
      else .inl (here.fail (.unmatched delimiter))
    | _ => .inl (here.fail (.unmatched delimiter))

/-- Skips layout and takes one lexeme. Either reading has ended, or it goes on. -/
def step (reading : Reading) : ReadOutcome ⊕ Reading :=
  if reading.cursor.skipLayout.rest.isEmpty then
    .inl (.error (endOfInput reading.frames reading.cursor.skipLayout))
  else
    match scanLexeme reading.cursor.skipLayout with
    | .error failure => .inl (.error failure)
    | .ok (lexeme, after) => take reading.frames reading.cursor.skipLayout lexeme after

/-- To go on after a lexeme is to take it and to go on from where that leads. By cases on the lexeme
and on what is open. -/
theorem proceed_eq_take (next : Continuation) (frames : List Frame) (here : Cursor)
    (lexeme : Lexeme) (after : Cursor) :
    proceed next frames here lexeme after =
      match take frames here lexeme after with
      | .inl outcome => outcome
      | .inr reading => next reading.frames reading.cursor := by
  have handed (outcome : Form ⊕ List Frame) :
      resume next outcome after =
        match handedOver outcome after with
        | .inl outcome => outcome
        | .inr reading => next reading.frames reading.cursor := by
    cases outcome <;> rfl
  cases lexeme with
  | leaf form => exact handed _
  | closing delimiter =>
    cases frames with
    | nil => rfl
    | cons frame outer =>
      cases frame with
      | seq bracket position items =>
        simp only [proceed, take, handed]
        split <;> rfl
      | _ => rfl
  | _ => rfl

/-- One more lexeme allowed is one more step. -/
theorem readWith_step (fuel : Nat) (reading : Reading) :
    readWith (fuel + 1) reading.frames reading.cursor =
      match reading.step with
      | .inl outcome => outcome
      | .inr next => readWith fuel next.frames next.cursor := by
  rw [readWith_succ, step]
  split
  · rfl
  · cases scanLexeme reading.cursor.skipLayout with
    | error failure => rfl
    | ok read => exact proceed_eq_take _ _ _ _ _

end Reading

/-- Reading comes to its end in a number of steps. -/
inductive Runs : Reading → Nat → ReadOutcome → Prop where
  | stops (reading : Reading) (outcome : ReadOutcome) (stopped : reading.step = .inl outcome) :
      Runs reading 1 outcome
  | goesOn (reading next : Reading) (count : Nat) (outcome : ReadOutcome)
      (stepped : reading.step = .inr next) (later : Runs next count outcome) :
      Runs reading (count + 1) outcome

/-- The position of the bracket of an open sequence. -/
def Frame.position? : Frame → Option Int
  | .seq _ position _ => some position
  | _ => none

/-- The positions of the brackets of all open sequences. -/
def openedAt (frames : List Frame) : List Int := frames.filterMap Frame.position?

/-- Handing over a form opens nothing. -/
theorem openedAt_feed {frames opened : List Frame} {form : Form}
    (fed : feed frames form = .inr opened) : openedAt opened ⊆ openedAt frames := by
  induction frames generalizing form with
  | nil => simp [feed] at fed
  | cons frame frames inductionHypothesis =>
    cases frame with
    | seq bracket position items =>
      obtain rfl := Sum.inr.inj fed
      exact fun _ member => member
    | mark text gap => exact inductionHypothesis fed
    | note =>
      obtain rfl := Sum.inr.inj fed
      exact fun _ member => member
    | noted note => exact inductionHypothesis fed

namespace Reading

/-- What taking a lexeme can do: it completes a form, or meets a bracket that does not match, or
goes on behind the lexeme. Only an opening bracket opens a sequence. -/
theorem take_cases (frames : List Frame) (here : Cursor) (lexeme : Lexeme) (after : Cursor) :
    (∃ form, take frames here lexeme after = .inl (.ok (form, after))) ∨
    (∃ delimiter, take frames here lexeme after = .inl (here.fail (.unmatched delimiter))) ∨
    ∃ opened, take frames here lexeme after = .inr ⟨opened, after⟩ ∧
      ∀ position ∈ openedAt opened,
        position ∈ openedAt frames ∨ ∃ bracket, lexeme = .opening bracket position := by
  have handed (outer : List Frame) (form : Form) (same : openedAt outer ⊆ openedAt frames) :
      (∃ complete, handedOver (feed outer form) after = .inl (.ok (complete, after))) ∨
      ∃ opened, handedOver (feed outer form) after = .inr ⟨opened, after⟩ ∧
        ∀ position ∈ openedAt opened, position ∈ openedAt frames := by
    cases fed : feed outer form with
    | inl complete => exact .inl ⟨complete, rfl⟩
    | inr opened =>
      exact .inr ⟨opened, rfl, fun position member => same (openedAt_feed fed member)⟩
  cases lexeme with
  | opening bracket position =>
    refine .inr (.inr ⟨_, rfl, fun other member => ?_⟩)
    obtain rfl | outer := List.mem_cons.mp member
    · exact .inr ⟨bracket, rfl⟩
    · exact .inl outer
  | note => exact .inr (.inr ⟨_, rfl, fun _ member => .inl member⟩)
  | mark text gap => exact .inr (.inr ⟨_, rfl, fun _ member => .inl member⟩)
  | leaf form =>
    obtain ended | ⟨opened, went, outer⟩ := handed frames form fun _ member => member
    · exact .inl ended
    · exact .inr (.inr ⟨opened, went, fun position member => .inl (outer position member)⟩)
  | closing delimiter =>
    cases frames with
    | nil => exact .inr (.inl ⟨delimiter, rfl⟩)
    | cons frame outer =>
      cases frame with
      | seq bracket position items =>
        by_cases same : bracket.closing = delimiter
        · obtain ended | ⟨opened, went, inside⟩ := handed outer (.seq bracket items.reverse)
            fun _ member => List.mem_cons_of_mem _ member
          · exact .inl (by simpa [take, same] using ended)
          · exact .inr (.inr ⟨opened, by simpa [take, same] using went,
              fun position member => .inl (inside position member)⟩)
        · exact .inr (.inl ⟨delimiter, by simp [take, same]⟩)
      | _ => exact .inr (.inl ⟨delimiter, rfl⟩)

/-- The reader has come from a position of the text: it stands there or behind, and so do the
brackets of all that is open. -/
structure From (text : Text) (start : Int) (reading : Reading) : Prop where
  placed : reading.cursor.In text
  behind : start ≤ reading.cursor.position
  bounded : reading.cursor.position ≤ max start (text.length + 1)
  opened : ∀ position ∈ openedAt reading.frames, start ≤ position ∧ position ≤ text.length

/-- A good end of reading from a position: the form ends at a later place of the text, or the error
is about the position or a later one, one behind the end of the text at most. From the start of the
text on, no character is unexpected. -/
def EndsWell (text : Text) (start : Int) : ReadOutcome → Prop
  | .ok (_, after) => after.In text ∧ start < after.position
  | .error failure =>
    start ≤ failure.error.position ∧ failure.error.position ≤ max start (text.length + 1) ∧
      (0 ≤ start → ∀ c, failure.error.problem ≠ .unexpected c)

variable {text : Text} {start : Int} {reading : Reading}

/-- At the end of the text, reading ends well. -/
theorem From.endOfInput (come : reading.From text start) (here : Cursor)
    (behind : start ≤ here.position) (bounded : here.position ≤ max start (text.length + 1)) :
    EndsWell text start (.error (Relocate.endOfInput reading.frames here)) := by
  unfold Relocate.endOfInput
  split
  · rename_i bracket position items outer same
    have opened := come.opened position (by simp [same, openedAt, Frame.position?])
    exact ⟨opened.1, by simp only; omega, by simp⟩
  · exact ⟨behind, bounded, by simp⟩

/-- Behind the start of the text, a lexeme starts where layout ends. -/
theorem starts_of_skipLayout {cursor : Cursor} (behind : cursor.before = 0)
    (more : cursor.skipLayout.rest ≠ []) :
    cursor.skipLayout.before = 0 ∧ StartsLexeme cursor.skipLayout.rest := by
  have skips : cursor.skipLayout = skipLayout cursor.offset cursor.rest := by
    simp [Cursor.skipLayout, behind]
  obtain ended | ⟨lead, -, -, starts, place⟩ := skipLayout_skipped cursor.offset cursor.rest
  · exact absurd (skips ▸ ended) more
  · rw [skips]
    exact ⟨by rw [place], starts⟩

/-- One step ends well, or it goes on nearer to the end of the text. Either nothing is left, the
scanner fails, or a lexeme is taken, which moves the cursor on by a character at least. -/
theorem From.step (come : reading.From text start) :
    (∃ outcome, reading.step = .inl outcome ∧ EndsWell text start outcome) ∨
    ∃ next, reading.step = .inr next ∧ next.From text start ∧
      next.cursor.rest.length < reading.cursor.rest.length := by
  obtain ⟨placed, skipped, within⟩ := come.placed.skipLayout
  have behind := come.behind
  have bounded := come.bounded
  have starts := @starts_of_skipLayout reading.cursor
  have earlier := come.placed.length
  unfold Reading.step
  generalize reading.cursor.skipLayout = here at placed skipped within starts
  have length := placed.length
  by_cases ended : here.rest = []
  · refine .inl ⟨_, by rw [ended]; rfl, come.endOfInput here (by omega) (by omega)⟩
  · have more : here.rest.isEmpty = false := by simpa using ended
    have inside := List.length_pos_iff.mpr ended
    have scanned := scanned_scanLexeme ended
    rw [more, if_neg Bool.false_ne_true]
    generalize scanLexeme here = result at scanned
    cases scanned with
    | failed failure near expected =>
      refine .inl ⟨_, rfl, by have := near.1; omega, by have := near.2; omega, fun start => ?_⟩
      have front : reading.cursor.before = 0 := by
        have oneSided := come.placed.oneSided
        rw [Cursor.position] at behind
        omega
      obtain ⟨here, lexeme⟩ := starts front ended
      exact expected here lexeme
    | taken lexeme count positive fits opened =>
      have moved := here.position_advance count
      have shorter := (placed.advance count).length
      obtain ⟨form, took⟩ | ⟨delimiter, took⟩ | ⟨frames, took, inner⟩ :=
        take_cases reading.frames here lexeme (here.advance count)
      · exact .inl ⟨_, took, placed.advance count, by omega⟩
      · refine .inl ⟨_, took, ?_⟩
        exact ⟨by simp only; omega, by simp only; omega, by simp⟩
      · refine .inr ⟨_, took, ⟨placed.advance count, by simp only; omega, by simp only; omega, ?_⟩,
          by simp only; omega⟩
        intro position member
        obtain outer | ⟨bracket, same⟩ := inner position member
        · exact come.opened position outer
        · have near := opened bracket position same
          exact ⟨by have := near.1; omega, by have := near.2; omega⟩

/-- A whole run ends well. -/
theorem From.runs {count : Nat} {outcome : ReadOutcome} (come : reading.From text start)
    (ran : Runs reading count outcome) : EndsWell text start outcome := by
  induction ran with
  | stops reading outcome stopped =>
    obtain ⟨other, same, well⟩ | ⟨next, went, -⟩ := come.step
    · rwa [Sum.inl.inj (stopped.symm.trans same)]
    · rw [stopped] at went
      simp at went
  | goesOn reading next count outcome stepped _ inductionHypothesis =>
    obtain ⟨other, same, -⟩ | ⟨other, went, further, -⟩ := come.step
    · rw [stepped] at same
      simp at same
    · rw [Sum.inr.inj (stepped.symm.trans went)] at inductionHypothesis
      exact inductionHypothesis further

/-- With a bound above the number of characters left, the reader comes to its end by itself. -/
theorem From.runs_readWith {fuel : Nat} (come : reading.From text start)
    (enough : reading.cursor.rest.length < fuel) :
    ∃ count ≤ reading.cursor.rest.length + 1,
      Runs reading count (readWith fuel reading.frames reading.cursor) := by
  induction fuel generalizing reading with
  | zero => omega
  | succ fuel inductionHypothesis =>
    rw [readWith_step]
    obtain ⟨outcome, stopped, -⟩ | ⟨next, went, further, shorter⟩ := come.step
    · rw [stopped]
      exact ⟨1, by omega, .stops reading outcome stopped⟩
    · rw [went]
      obtain ⟨count, few, ran⟩ := inductionHypothesis further (by omega)
      exact ⟨count + 1, by omega, .goesOn reading next count _ went ran⟩

end Reading

section Whole

variable {text : Text} {cursor : Cursor}

/-- With nothing open, the reader has come from where it stands. -/
theorem Cursor.In.reading (placed : cursor.In text) :
    Reading.From text cursor.position ⟨[], cursor⟩ where
  placed := placed
  behind := Int.le_refl _
  bounded := Int.le_max_left _ _
  opened := by simp [openedAt]

/-- Reading a form comes to an end in no more steps than there are characters left, and one for the
end of the text. -/
theorem Cursor.In.runs_readForm (placed : cursor.In text) :
    ∃ count ≤ cursor.rest.length + 1, Runs ⟨[], cursor⟩ count (readForm cursor) :=
  placed.reading.runs_readWith (Nat.lt_succ_self _)

/-- From a place of the text, reading a form ends well, because it comes to its end in steps that
each keep the invariant. -/
theorem Cursor.In.endsWell_readForm (placed : cursor.In text) :
    Reading.EndsWell text cursor.position (readForm cursor) := by
  obtain ⟨count, -, ran⟩ := placed.runs_readForm
  exact placed.reading.runs ran

end Whole

/-- Listing the forms from a cursor on comes to its end, with these forms and this error. -/
inductive Lists : Cursor → List Spanned → Option ReadError → Prop where
  | ended (cursor : Cursor) (nothing : cursor.skipLayout.rest = []) : Lists cursor [] none
  | failed (cursor : Cursor) (failure : ReadFailure) (more : cursor.skipLayout.rest ≠ [])
      (read : readForm cursor.skipLayout = .error failure) : Lists cursor [] (some failure.error)
  | form (cursor after : Cursor) (form : Form) (forms : List Spanned) (error : Option ReadError)
      (more : cursor.skipLayout.rest ≠ []) (read : readForm cursor.skipLayout = .ok (form, after))
      (later : Lists after forms error) :
      Lists cursor (⟨form, cursor.skipLayout.offset, after.offset⟩ :: forms) error

/-- Every form takes a character, so with a bound above the number of characters left the list comes
to its end by itself. -/
theorem lists_readFormsWith {text : Text} {fuel : Nat} {cursor : Cursor} (placed : cursor.In text)
    (enough : cursor.rest.length < fuel) :
    Lists cursor (readFormsWith fuel cursor).1 (readFormsWith fuel cursor).2 := by
  induction fuel generalizing cursor with
  | zero => omega
  | succ fuel inductionHypothesis =>
    obtain ⟨placedHere, skipped, -⟩ := placed.skipLayout
    have well := placedHere.endsWell_readForm
    rw [readFormsWith]
    by_cases nothing : cursor.skipLayout.rest = []
    · simp only [nothing, List.isEmpty_nil, if_true]
      exact .ended cursor nothing
    · have more : cursor.skipLayout.rest.isEmpty = false := by simpa using nothing
      simp only [more, Bool.false_eq_true, if_false]
      cases read : readForm cursor.skipLayout with
      | error failure => exact .failed cursor failure nothing read
      | ok result =>
        obtain ⟨form, after⟩ := result
        rw [read] at well
        obtain ⟨placedAfter, moved⟩ := well
        refine .form cursor after form _ _ nothing read (inductionHypothesis placedAfter ?_)
        have before := placed.length
        have here := placedHere.length
        have behind := placedAfter.length
        have positive := List.length_pos_iff.mpr nothing
        omega

/-- Listing the forms of a text comes to its end, with no help of the bound on the number of forms.
-/
theorem lists_readForms (text : Text) :
    Lists (Cursor.ofText text 0) (readForms text).1 (readForms text).2 :=
  lists_readFormsWith (Cursor.in_ofText text 0) (by simp [Cursor.ofText])

/-- A position further before the start than the text is long is none of the text. From every other
one, reading a form comes to its end. If it gives a form, the cursor has moved on. If it fails, it
is with an error about the position or one behind it, at most one behind the end of the text, and no
character is unexpected from the start of the text on. Listing the forms of a text comes to its end,
too. The reader takes a lexeme in every step, of one character at least, and each step keeps it at
or behind the place that it started from. -/
theorem readForm_makes_progress (text : Text) (position : Int) :
    (position < -(text.length : Int) → Cursor.ofPosition text position = .error .beforeText) ∧
    (-(text.length : Int) ≤ position → ∃ cursor, Cursor.ofPosition text position = .ok cursor ∧
      (∃ count ≤ ((text.length : Int) - position).toNat + 1,
        Runs ⟨[], cursor⟩ count (readForm cursor)) ∧
      (∀ form after, readForm cursor = .ok (form, after) → position < after.position) ∧
      ∀ failure, readForm cursor = .error failure →
        position ≤ failure.error.position ∧
        failure.error.position ≤ max position (text.length + 1) ∧
        (0 ≤ position → ∀ c, failure.error.problem ≠ .unexpected c)) ∧
    Lists (Cursor.ofText text 0) (readForms text).1 (readForms text).2 := by
  refine ⟨fun outside => ?_, fun inside => ?_, lists_readForms text⟩
  · cases position with
    | ofNat offset =>
      rw [Int.ofNat_eq_natCast] at outside
      omega
    | negSucc before => rw [Cursor.ofPosition, if_neg (by omega)]
  · have found : ∃ cursor, Cursor.ofPosition text position = .ok cursor := by
      cases position with
      | ofNat offset => exact ⟨_, rfl⟩
      | negSucc before =>
        rw [Cursor.ofPosition, if_pos (by omega)]
        exact ⟨_, rfl⟩
    obtain ⟨cursor, found⟩ := found
    obtain ⟨placed, same⟩ := Cursor.in_of_ofPosition found
    have well := placed.endsWell_readForm
    have ends := placed.runs_readForm
    rw [placed.length, same] at ends
    rw [same] at well
    refine ⟨cursor, found, ends, fun form after read => ?_, fun failure read => ?_⟩
    · rw [read] at well
      exact well.2
    · rw [read] at well
      exact well

/-- Behind a caret, a backslash that ends the text counts as if a character followed, and the form
that it belongs to is missed one position behind the end. -/
theorem readForm_makes_progress_overhang :
    ∃ failure, readForm (Cursor.ofText "^\\".toList 0) = .error failure ∧
      failure.error = ⟨.endOfInput, 3⟩ ∧
      (0 ≤ failure.error.position ∧ failure.error.position ≤ max 0 3 ∧
        ∀ c, failure.error.problem ≠ .unexpected c) := by
  obtain ⟨cursor, found, -, -, fails⟩ :=
    (readForm_makes_progress "^\\".toList 0).2.1 (by decide)
  obtain rfl := Except.ok.inj found
  refine ⟨⟨⟨.endOfInput, 3⟩, ⟨0, 3, []⟩⟩, rfl, rfl, ?_⟩
  obtain ⟨first, last, expected⟩ := fails _ rfl
  exact ⟨first, last, expected (by decide)⟩

/-- A position further before the start than the text is long is no place of it, and an atom that is
read across the end of the text can come out empty. -/
theorem atom_before_start_unexpected :
    Cursor.ofPosition [] (-1) = .error .beforeText ∧
      ∃ cursor stopped, Cursor.ofPosition "abc def".toList (-1) = .ok cursor ∧
        readForm cursor = .error ⟨⟨.unexpected 'f', -1⟩, stopped⟩ :=
  ⟨rfl, _, _, rfl, rfl⟩

end Relocate
