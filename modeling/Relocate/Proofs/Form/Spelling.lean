import Relocate.Proofs.Form.Lexemes

/-!
# The grammar of forms

`Spelling` relates a form to a text that spells it, in front of what follows. It is the grammar that
the reader implements: layout may stand wherever two lexemes meet, and what follows a lexeme must
not continue it.

The reader is exact for this grammar. `readOn_spelling` says that a spelled form is read whatever is
open, and `spelled_of_readOn` that a successful reading has found a spelled form or the closing
bracket it was waiting for.
-/
namespace Relocate

mutual

/-- A form, its text, and what follows it. -/
inductive Spelling : Form → Text → Text → Prop where
  | leaf (form : Form) (own rest : Text) (written : Written (.leaf form) own rest) :
      Spelling form own rest
  | seq (bracket : Bracket) (items : List Form) (body rest : Text)
      (inside : Items items body (bracket.closing :: rest)) :
      Spelling (.seq bracket items) (bracket.opening ++ (body ++ [bracket.closing])) rest
  | annotated (note target : Form) (lead first gap second rest : Text) (leading : Layout lead)
      (noted : Spelling note first (gap ++ (second ++ rest))) (between : Layout gap)
      (spelled : Spelling target second rest) :
      Spelling (.annotated note target) ('^' :: (lead ++ (first ++ (gap ++ second)))) rest
  | marked (mark gap : Text) (target : Form) (own lead first rest : Text)
      (written : Written (.mark mark gap) own (lead ++ (first ++ rest))) (between : Layout lead)
      (spelled : Spelling target first rest) :
      Spelling (.marked mark gap target) (own ++ (lead ++ first)) rest

/-- The items of a sequence, their text with the layout around them, and what follows. -/
inductive Items : List Form → Text → Text → Prop where
  | none (lead rest : Text) (layout : Layout lead) : Items [] lead rest
  | some (form : Form) (forms : List Form) (lead own body rest : Text) (layout : Layout lead)
      (spelled : Spelling form own (body ++ rest)) (others : Items forms body rest) :
      Items (form :: forms) (lead ++ (own ++ body)) rest

end

/-- Every lexeme other than an opening bracket starts with a character that is no layout. By cases
on the lexeme; an atom starts with no terminator, and layout consists of these. -/
theorem Written.starts {lexeme : Lexeme} {own rest : Text} (written : Written lexeme own rest) :
    StartsLexeme own := by
  have known (c : Char) (run : Text) (notSpace : isSpace c = false) (notComment : c ≠ ';') :
      StartsLexeme (c :: run) := ⟨c, run, rfl, notSpace, notComment⟩
  cases written with
  | closing bracket => cases bracket <;> exact known _ _ (by decide) (by decide)
  | quote c _ mark => rcases mark with rfl | rfl | rfl <;> exact known _ _ (by decide) (by decide)
  | atom _ _ shape =>
    cases own with
    | nil => simp [isAtom] at shape
    | cons c run =>
      simp only [isAtom, Bool.and_eq_true] at shape
      have first := isTerminator_of_isAtomStart shape.1
      simp only [isTerminator, Bool.or_eq_false_iff, decide_eq_false_iff_not] at first
      exact known c run first.1.1.1.1.1.1.1.1 first.2
  | _ => exact known _ _ (by decide) (by decide)

/-- An opening bracket is no layout. -/
theorem startsLexeme_opening (bracket : Bracket) (rest : Text) :
    StartsLexeme (bracket.opening ++ rest) := by
  cases bracket <;> exact ⟨_, _, rfl, by decide, by decide⟩

/-- The text of a form starts with a character that is no layout. -/
theorem Spelling.starts {form : Form} {own rest : Text} (spelled : Spelling form own rest) :
    StartsLexeme own := by
  cases spelled with
  | leaf _ _ _ written => exact written.starts
  | seq bracket items body => exact startsLexeme_opening bracket _
  | annotated => exact ⟨'^', _, rfl, by decide, by decide⟩
  | marked _ _ _ _ _ _ _ written => exact written.starts.append _

/-- A backslash that counts as if a character followed has nothing behind it. -/
theorem Written.overhang {lexeme : Lexeme} {own rest : Text} (written : Written lexeme own rest)
    (more : rest ≠ []) : lexeme.overhang = 0 := by
  cases written with
  | atom _ _ shape => exact overhang_ofAtom shape
  | character => simp [Lexeme.overhang, Form.overhang]
  | pattern => simp [Lexeme.overhang, Form.overhang]
  | backslash => exact absurd rfl more
  | _ => rfl

/-- Reading a form passes the end of the text only where nothing follows the form. -/
theorem Spelling.overhang {form : Form} {own rest : Text} (spelled : Spelling form own rest)
    (more : rest ≠ []) : form.overhang = 0 := by
  match spelled with
  | .leaf _ _ _ written => exact written.overhang more
  | .seq .. => rfl
  | .annotated _ _ _ _ _ _ _ _ _ _ target => exact target.overhang more
  | .marked _ _ _ _ _ _ _ _ _ target => exact target.overhang more

/-- A way to go on with the given frames open. -/
abbrev Continuation := List Frame → Cursor → Except ReadFailure (Form × Cursor)

/-- Goes on after a form has been handed to what is open. -/
def resume (next : Continuation) (outcome : Form ⊕ List Frame) (after : Cursor) :
    Except ReadFailure (Form × Cursor) :=
  match outcome with
  | .inl complete => .ok (complete, after)
  | .inr frames => next frames after

/-- Goes on after a lexeme that stands at the cursor `here`. -/
def proceed (next : Continuation) (frames : List Frame) (here : Cursor) (lexeme : Lexeme)
    (after : Cursor) : Except ReadFailure (Form × Cursor) :=
  match lexeme with
  | .opening bracket position => next (.seq bracket position [] :: frames) after
  | .note => next (.note :: frames) after
  | .mark mark gap => next (.mark mark gap :: frames) after
  | .leaf form => resume next (feed frames form) after
  | .closing delimiter =>
    match frames with
    | .seq bracket _ items :: outer =>
      if bracket.closing = delimiter then
        resume next (feed outer (.seq bracket items.reverse)) after
      else here.fail (.unmatched delimiter)
    | _ => here.fail (.unmatched delimiter)

/-- One step of the reader: skip layout, take a lexeme, go on. By cases on the lexeme and on what is
open. -/
theorem readWith_succ (fuel : Nat) (frames : List Frame) (cursor : Cursor) :
    readWith (fuel + 1) frames cursor =
      if cursor.skipLayout.rest.isEmpty then .error (endOfInput frames cursor.skipLayout)
      else
        match scanLexeme cursor.skipLayout with
        | .error failure => .error failure
        | .ok (lexeme, after) => proceed (readWith fuel) frames cursor.skipLayout lexeme after := by
  rw [readWith]
  cases scanned : scanLexeme cursor.skipLayout with
  | error failure => rfl
  | ok read =>
    obtain ⟨lexeme, after⟩ := read
    cases lexeme with
    | leaf form =>
      unfold proceed resume
      cases feed frames form <;> rfl
    | closing delimiter =>
      cases frames with
      | nil => rfl
      | cons frame outer =>
        cases frame with
        | seq bracket position items =>
          unfold proceed resume
          cases feed outer (.seq bracket items.reverse) <;> rfl
        | _ => rfl
    | _ => rfl

/-- A lexeme that is read has a text of its own, and reading goes on behind it. -/
theorem scanLexeme_advances {offset : Nat} {text : Text} {lexeme : Lexeme} {after : Cursor}
    (starts : StartsLexeme text) (scanned : scanLexeme ⟨0, offset, text⟩ = .ok (lexeme, after)) :
    ∃ own, own ≠ [] ∧ text = own ++ after.rest ∧ after = ⟨0, after.offset, after.rest⟩ := by
  obtain ⟨own, rest, rfl, written | ⟨bracket, position, rfl, rfl⟩⟩ :=
    lexed_of_scanLexeme starts scanned
  · have same := (Except.ok.inj ((scanLexeme_written written offset).symm.trans scanned))
    obtain ⟨c, run, rfl, -⟩ := written.starts
    rw [← (Prod.mk.inj same).2]
    exact ⟨c :: run, by simp, rfl, rfl⟩
  · obtain ⟨place, read⟩ := scanLexeme_opening bracket offset rest
    rw [← (Prod.mk.inj (Except.ok.inj (read.symm.trans scanned))).2]
    exact ⟨bracket.opening, by cases bracket <;> simp [Bracket.opening], rfl, rfl⟩

/-- Going on looks only at what comes behind the lexeme. By cases on the lexeme: what goes on is
called at the cursor behind it only. -/
theorem proceed_congr {next other : Continuation} {after : Cursor}
    (agree : ∀ frames, next frames after = other frames after) (frames : List Frame) (here : Cursor)
    (lexeme : Lexeme) :
    proceed next frames here lexeme after = proceed other frames here lexeme after := by
  have resumed (outcome : Form ⊕ List Frame) :
      resume next outcome after = resume other outcome after := by
    cases outcome with
    | inl complete => rfl
    | inr frames => exact agree frames
  cases lexeme with
  | leaf form => exact resumed _
  | closing delimiter =>
    cases frames with
    | nil => rfl
    | cons frame outer =>
      cases frame with
      | seq bracket position items => simp only [proceed, resumed]
      | _ => rfl
  | _ => exact agree _

/-- Every lexeme takes a character, so a bound above the number of characters does not matter. By
induction on the first bound. -/
theorem readWith_fuel (fuel other : Nat) (frames : List Frame) (offset : Nat) (text : Text)
    (enough : text.length < fuel) (alsoEnough : text.length < other) :
    readWith fuel frames ⟨0, offset, text⟩ = readWith other frames ⟨0, offset, text⟩ := by
  induction fuel generalizing other frames offset text with
  | zero => omega
  | succ fuel inductionHypothesis =>
    obtain _ | other := other
    · omega
    rw [readWith_succ, readWith_succ]
    have same : Cursor.skipLayout ⟨0, offset, text⟩ = skipLayout offset text := rfl
    have skipped := skipLayout_skipped offset text
    rw [same]
    generalize skipLayout offset text = here at skipped
    obtain ended | ⟨lead, rfl, -, starts, place⟩ := skipped
    · simp [ended]
    · cases scanned : scanLexeme here with
      | error failure => rfl
      | ok read =>
        obtain ⟨lexeme, after⟩ := read
        rw [place] at scanned
        obtain ⟨own, nonempty, split, behind⟩ := scanLexeme_advances starts scanned
        have shorter : 0 < own.length := List.length_pos_iff.mpr nonempty
        rw [split, List.length_append, List.length_append] at enough alsoEnough
        have agree (frames : List Frame) :
            readWith fuel frames after = readWith other frames after := by
          rw [behind]
          exact inductionHypothesis other frames _ _ (by omega) (by omega)
        simp only [proceed_congr agree]

/-- Reads on with the given frames open, without a bound on the lexemes. -/
def readOn (frames : List Frame) (cursor : Cursor) : Except ReadFailure (Form × Cursor) :=
  readWith (cursor.rest.length + 1) frames cursor

/-- Reading a form is reading on with nothing open. -/
theorem readForm_eq_readOn (cursor : Cursor) : readForm cursor = readOn [] cursor := rfl

/-- The reader skips layout, takes a lexeme and goes on behind it. The lexeme has taken a character,
so that the bound that is left is enough for the rest. -/
theorem readOn_lexeme {lead own rest : Text} {lexeme : Lexeme} {after : Cursor}
    (layout : Layout lead) (starts : StartsLexeme own) (frames : List Frame) (offset : Nat)
    (scanned : scanLexeme ⟨0, offset + lead.length, own ++ rest⟩ = .ok (lexeme, after)) :
    readOn frames ⟨0, offset, lead ++ (own ++ rest)⟩ =
      proceed readOn frames ⟨0, offset + lead.length, own ++ rest⟩ lexeme after := by
  have here : Cursor.skipLayout ⟨0, offset, lead ++ (own ++ rest)⟩ =
      ⟨0, offset + lead.length, own ++ rest⟩ := by
    change skipLayout offset _ = _
    rw [skipLayout_layout layout, skipLayout_lexeme (starts.append rest)]
  obtain ⟨taken, nonempty, split, behind⟩ := scanLexeme_advances (starts.append rest) scanned
  have shorter : 0 < taken.length := List.length_pos_iff.mpr nonempty
  have agree (frames : List Frame) :
      readWith (lead ++ (own ++ rest)).length frames after = readOn frames after := by
    rw [readOn, behind]
    refine readWith_fuel _ _ _ _ _ ?_ ?_
    · simp only [split, List.length_append]
      omega
    · exact Nat.lt_succ_self _
  have notEmpty : (own ++ rest).isEmpty = false := by
    obtain ⟨c, run, rfl, -⟩ := starts
    rfl
  rw [readOn, readWith_succ, here]
  simp only [notEmpty, scanned, Bool.false_eq_true, if_false]
  exact proceed_congr agree frames _ lexeme

/-- The reader goes on behind a written lexeme. -/
theorem readOn_written {lead own rest : Text} {lexeme : Lexeme} (layout : Layout lead)
    (written : Written lexeme own rest) (frames : List Frame) (offset : Nat) :
    readOn frames ⟨0, offset, lead ++ (own ++ rest)⟩ =
      proceed readOn frames ⟨0, offset + lead.length, own ++ rest⟩ lexeme
        ⟨0, offset + lead.length + own.length + lexeme.overhang, rest⟩ :=
  readOn_lexeme layout written.starts frames offset (scanLexeme_written written _)

/-- The reader opens a sequence behind an opening bracket. -/
theorem readOn_opening {lead : Text} (layout : Layout lead) (bracket : Bracket) (rest : Text)
    (frames : List Frame) (offset : Nat) :
    ∃ position, readOn frames ⟨0, offset, lead ++ (bracket.opening ++ rest)⟩ =
      readOn (.seq bracket position [] :: frames)
        ⟨0, offset + lead.length + bracket.opening.length, rest⟩ := by
  obtain ⟨position, scanned⟩ := scanLexeme_opening bracket (offset + lead.length) rest
  have starts : StartsLexeme bracket.opening := by
    simpa using startsLexeme_opening bracket []
  exact ⟨position, readOn_lexeme layout starts frames offset scanned⟩

mutual

/-- A spelled form is read, whatever is open, and handed to what is open. By recursion on the
spelling, together with its items: an opening lexeme opens a frame, and the parts complete it. -/
theorem readOn_spelling {form : Form} {own rest lead : Text} (spelled : Spelling form own rest)
    (layout : Layout lead) (frames : List Frame) (offset : Nat) :
    readOn frames ⟨0, offset, lead ++ (own ++ rest)⟩ =
      resume readOn (feed frames form)
        ⟨0, offset + lead.length + own.length + form.overhang, rest⟩ := by
  match spelled with
  | .leaf _ _ _ written => exact readOn_written layout written frames offset
  | .seq bracket items body _ inside =>
    obtain ⟨position, opened⟩ :=
      readOn_opening layout bracket (body ++ bracket.closing :: rest) frames offset
    have closed := readOn_items inside position [] frames
      (offset + lead.length + bracket.opening.length)
    have place : offset + lead.length + bracket.opening.length + body.length + 1 =
        offset + lead.length + (bracket.opening ++ (body ++ [bracket.closing])).length := by
      simp only [List.length_append, List.length_singleton]
      omega
    rw [place] at closed
    simpa [opened, Form.overhang] using closed
  | .annotated note target inner first gap second _ leading noted between spelledTarget =>
    have more : gap ++ (second ++ rest) ≠ [] := by
      obtain ⟨c, run, rfl, -⟩ := spelledTarget.starts
      simp
    have opened := readOn_written layout (.note (inner ++ (first ++ (gap ++ (second ++ rest)))))
      frames offset
    have readNote := readOn_spelling noted leading (.note :: frames) (offset + lead.length + 1)
    have readTarget := readOn_spelling spelledTarget between (.noted note :: frames)
      (offset + lead.length + 1 + inner.length + first.length)
    rw [noted.overhang more] at readNote
    have place :
        offset + lead.length + 1 + inner.length + first.length + gap.length + second.length =
        offset + lead.length + ('^' :: (inner ++ (first ++ (gap ++ second)))).length := by
      simp only [List.length_cons, List.length_append]
      omega
    have text : ('^' :: (inner ++ (first ++ (gap ++ second)))) ++ rest =
        ['^'] ++ (inner ++ (first ++ (gap ++ (second ++ rest)))) := by
      simp
    rw [text, opened, ← place]
    exact readNote.trans readTarget
  | .marked mark gap target mark' inner first _ written between spelledTarget =>
    have opened := readOn_written layout written frames offset
    have readTarget := readOn_spelling spelledTarget between (.mark mark gap :: frames)
      (offset + lead.length + mark'.length)
    have place : offset + lead.length + mark'.length + inner.length + first.length =
        offset + lead.length + (mark' ++ (inner ++ first)).length := by
      simp only [List.length_append]
      omega
    have text : mark' ++ (inner ++ first) ++ rest = mark' ++ (inner ++ (first ++ rest)) := by
      simp
    rw [text, opened, ← place]
    exact readTarget

/-- The items of a sequence are read up to its closing bracket, which completes the sequence. By
recursion on the items, each of which is added to the open sequence. -/
theorem readOn_items {bracket : Bracket} {items : List Form} {body rest : Text}
    (inside : Items items body (bracket.closing :: rest)) (position : Int) (earlier : List Form)
    (outer : List Frame) (offset : Nat) :
    readOn (.seq bracket position earlier :: outer) ⟨0, offset, body ++ bracket.closing :: rest⟩ =
      resume readOn (feed outer (.seq bracket (earlier.reverse ++ items)))
        ⟨0, offset + body.length + 1, rest⟩ := by
  match inside with
  | .none lead _ layout =>
    have closed := readOn_written layout (.closing bracket rest)
      (.seq bracket position earlier :: outer) offset
    simpa [proceed, Lexeme.overhang] using closed
  | .some form forms lead own more _ layout spelled others =>
    have readFirst := readOn_spelling spelled layout (.seq bracket position earlier :: outer) offset
    have readOthers := readOn_items others position (form :: earlier) outer
      (offset + lead.length + own.length)
    rw [spelled.overhang (by simp)] at readFirst
    have place : offset + lead.length + own.length + more.length + 1 =
        offset + (lead ++ (own ++ more)).length + 1 := by
      simp only [List.length_append]
      omega
    have text : lead ++ (own ++ more) ++ bracket.closing :: rest =
        lead ++ (own ++ (more ++ bracket.closing :: rest)) := by
      simp
    have items : earlier.reverse ++ form :: forms = (form :: earlier).reverse ++ forms := by
      simp
    rw [text, items, ← place]
    exact readFirst.trans readOthers

end

/-- The text starts, behind layout, with a spelled form. -/
def StartsForm (text : Text) : Prop :=
  ∃ lead form own rest, text = lead ++ (own ++ rest) ∧ Layout lead ∧ Spelling form own rest

/-- What is open is a sequence, and the text closes it behind layout. -/
def Closes (frames : List Frame) (text : Text) : Prop :=
  ∃ bracket position earlier outer lead rest, frames = .seq bracket position earlier :: outer ∧
    text = lead ++ bracket.closing :: rest ∧ Layout lead

/-- The text holds spelled items up to a closing bracket. -/
def HoldsItems (bracket : Bracket) (text : Text) : Prop :=
  ∃ items body rest, text = body ++ bracket.closing :: rest ∧
    Items items body (bracket.closing :: rest)

/-- Only a sequence can be closed. -/
theorem not_closes {frames : List Frame} {text : Text}
    (other : ∀ bracket position earlier outer, frames ≠ .seq bracket position earlier :: outer) :
    ¬ Closes frames text := by
  rintro ⟨bracket, position, earlier, outer, lead, rest, same, -⟩
  exact other bracket position earlier outer same

/-- A closing bracket is accepted only where its sequence is open. -/
theorem expected_of_proceed {next : Continuation} {frames : List Frame} {here after : Cursor}
    {delimiter : Char} {result : Form × Cursor}
    (accepted : proceed next frames here (.closing delimiter) after = .ok result) :
    ∃ bracket position earlier outer, frames = .seq bracket position earlier :: outer ∧
      bracket.closing = delimiter := by
  cases frames with
  | nil => simp [proceed, Cursor.fail] at accepted
  | cons frame outer =>
    cases frame with
    | seq bracket position earlier =>
      by_cases same : bracket.closing = delimiter
      · exact ⟨bracket, position, earlier, outer, rfl, same⟩
      · simp [proceed, same, Cursor.fail] at accepted
    | _ => simp [proceed, Cursor.fail] at accepted

/-- A successful reading has taken a lexeme behind layout. Unless only layout is left, the scanner
has been run at the first character behind it. -/
theorem lexed_of_readOn {frames : List Frame} {offset : Nat} {text : Text}
    {result : Form × Cursor} (read : readOn frames ⟨0, offset, text⟩ = .ok result) :
    ∃ lead own rest lexeme, text = lead ++ (own ++ rest) ∧ Layout lead ∧ StartsLexeme own ∧
      (Written lexeme own rest ∨ ∃ bracket position,
        lexeme = .opening bracket position ∧ own = bracket.opening) := by
  have same : Cursor.skipLayout ⟨0, offset, text⟩ = skipLayout offset text := rfl
  have skipped := skipLayout_skipped offset text
  rw [readOn, readWith_succ, same] at read
  generalize skipLayout offset text = here at skipped read
  obtain ended | ⟨lead, rfl, layout, starts, place⟩ := skipped
  · simp [ended] at read
  · cases scanned : scanLexeme here with
    | error failure =>
      have notEmpty : here.rest.isEmpty = false := by
        obtain ⟨c, rest, nonempty, -⟩ := starts
        simp [nonempty]
      simp [scanned, notEmpty] at read
    | ok taken =>
      obtain ⟨lexeme, after⟩ := taken
      rw [place] at scanned
      obtain ⟨own, rest, split, written⟩ := lexed_of_scanLexeme starts scanned
      have ownStarts : StartsLexeme own := by
        obtain written | ⟨bracket, position, -, rfl⟩ := written
        · exact written.starts
        · simpa using startsLexeme_opening bracket []
      exact ⟨lead, own, rest, lexeme, by rw [split], layout, ownStarts, written⟩

/-- A successful reading has found a spelled form, or the closing bracket that it was waiting for.

Induct on the length of the text. A leaf or a closing bracket is found at once. Behind a mark or a
caret the induction hypothesis finds the forms that they apply to, and behind an opening bracket the
items up to the closing one, one after the other. -/
theorem spelled_of_readOn (length : Nat) :
    (∀ frames offset text result, text.length < length →
      readOn frames ⟨0, offset, text⟩ = .ok result → StartsForm text ∨ Closes frames text) ∧
    (∀ bracket position earlier outer offset text result, text.length < length →
      readOn (.seq bracket position earlier :: outer) ⟨0, offset, text⟩ = .ok result →
        HoldsItems bracket text) := by
  induction length with
  | zero => exact ⟨fun _ _ _ _ bound => by omega, fun _ _ _ _ _ _ _ bound => by omega⟩
  | succ length inductionHypothesis =>
    obtain ⟨formFound, itemsFound⟩ := inductionHypothesis
    have here : ∀ frames offset text result, text.length < length + 1 →
        readOn frames ⟨0, offset, text⟩ = .ok result → StartsForm text ∨ Closes frames text := by
      intro frames offset text result bound read
      obtain ⟨lead, own, rest, lexeme, rfl, layout, starts, written⟩ := lexed_of_readOn read
      have shorter : rest.length < length := by
        obtain ⟨c, run, rfl, -⟩ := starts
        simp only [List.length_append, List.length_cons] at bound
        omega
      obtain written | ⟨bracket, position, rfl, rfl⟩ := written
      · rw [readOn_written layout written] at read
        cases lexeme with
        | opening => cases written
        | leaf form => exact .inl ⟨lead, form, own, rest, rfl, layout, .leaf _ _ _ written⟩
        | closing delimiter =>
          obtain ⟨bracket, position, earlier, outer, rfl, same⟩ := expected_of_proceed read
          cases written with
          | closing other =>
            exact .inr ⟨bracket, position, earlier, outer, lead, rest, rfl, by simp [same], layout⟩
        | note =>
          obtain ⟨inner, note, first, behind, rfl, leading, noted⟩ | closes :=
            formFound (.note :: frames) _ rest result shorter read
          · have again := (readOn_spelling noted leading (.note :: frames) _).symm.trans read
            have behindShorter : behind.length < length := by
              simp only [List.length_append] at shorter
              omega
            obtain ⟨gap, target, second, left, rfl, between, spelled⟩ | closes :=
              formFound (.noted note :: frames) _ behind result behindShorter again
            · cases written
              exact .inl ⟨lead, .annotated note target, _, left, by simp, layout,
                .annotated note target inner first gap second left leading noted between spelled⟩
            · exact absurd closes (not_closes (by simp))
          · exact absurd closes (not_closes (by simp))
        | mark mark gap =>
          obtain ⟨inner, target, first, left, rfl, between, spelled⟩ | closes :=
            formFound (.mark mark gap :: frames) _ rest result shorter read
          · exact .inl ⟨lead, .marked mark gap target, _, left, by simp, layout,
              .marked mark gap target own inner first left written between spelled⟩
          · exact absurd closes (not_closes (by simp))
      · obtain ⟨place, opened⟩ := readOn_opening layout bracket rest frames offset
        rw [opened] at read
        obtain ⟨items, body, behind, rfl, inside⟩ :=
          itemsFound bracket place [] frames _ rest result shorter read
        exact .inl ⟨lead, .seq bracket items, bracket.opening ++ (body ++ [bracket.closing]),
          behind,
          by simp, layout, .seq bracket items body behind inside⟩
    refine ⟨here, ?_⟩
    intro bracket position earlier outer offset text result bound read
    obtain ⟨lead, form, own, rest, rfl, layout, spelled⟩ |
        ⟨other, _, _, _, lead, rest, same, rfl, layout⟩ :=
      here (.seq bracket position earlier :: outer) offset text result bound read
    · have again := (readOn_spelling spelled layout _ offset).symm.trans read
      have shorter : rest.length < length := by
        obtain ⟨c, run, rfl, -⟩ := spelled.starts
        simp only [List.length_append, List.length_cons] at bound
        omega
      obtain ⟨items, body, behind, rfl, inside⟩ :=
        itemsFound bracket position (form :: earlier) outer _ rest result shorter again
      exact ⟨form :: items, lead ++ (own ++ body), behind, by simp,
        .some form items lead own body _ layout spelled inside⟩
    · obtain rfl : bracket = other := by
        simp only [List.cons.injEq, Frame.seq.injEq] at same
        exact same.1.1
      exact ⟨[], lead, rest, rfl, .none lead _ layout⟩

/-- The reader finds a spelled form, and stands behind it. From left to right the reading is
unfolded into a spelling, and there is nothing open that it could close instead; from right to left
a spelled form is read. -/
theorem readForm_ok_iff {offset : Nat} {text : Text} {form : Form} {after : Cursor} :
    readForm ⟨0, offset, text⟩ = .ok (form, after) ↔
      ∃ lead own rest, text = lead ++ (own ++ rest) ∧ Layout lead ∧ Spelling form own rest ∧
        after = ⟨0, offset + lead.length + own.length + form.overhang, rest⟩ := by
  rw [readForm_eq_readOn]
  constructor
  · intro read
    obtain ⟨lead, found, own, rest, rfl, layout, spelled⟩ | closes :=
      (spelled_of_readOn (text.length + 1)).1 [] offset text _ (Nat.lt_succ_self _) read
    · rw [readOn_spelling spelled layout] at read
      simp only [feed, resume, Except.ok.injEq, Prod.mk.injEq] at read
      obtain ⟨rfl, rfl⟩ := read
      exact ⟨lead, own, rest, rfl, layout, spelled, rfl⟩
    · exact absurd closes (not_closes (by simp))
  · rintro ⟨lead, own, rest, rfl, layout, spelled, rfl⟩
    rw [readOn_spelling spelled layout]
    rfl

/-- Of what follows a lexeme only the first character matters. By cases on the lexeme, as each
condition is about what the next character is. -/
theorem Written.head_congr {lexeme : Lexeme} {own rest other : Text}
    (written : Written lexeme own rest) (same : rest.head? = other.head?) :
    Written lexeme own other := by
  have ends (ended : Delimited rest) : Delimited other := by
    intro c first
    exact ended c (same.trans first)
  cases written with
  | closing bracket => exact .closing bracket other
  | note => exact .note other
  | quote c _ known => exact .quote c other known
  | unquote _ single => exact .unquote other (same ▸ single)
  | splice => exact .splice other
  | hashed c _ known => exact .hashed c other known
  | conditional _ single => exact .conditional other (same ▸ single)
  | conditionalSplice => exact .conditionalSplice other
  | function _ applied => exact .function other (same ▸ applied)
  | tag tag _ shape ended => exact .tag tag other shape (ends ended)
  | atom _ _ shape ended => exact .atom own other shape (ends ended)
  | string body value _ closed => exact .string body value other closed
  | pattern body value _ closed => exact .pattern body value other closed
  | character c run _ shape ended => exact .character c run other shape (ends ended)
  | backslash =>
    obtain rfl : other = [] := by
      cases other with
      | nil => rfl
      | cons c rest => simp at same
    exact .backslash

/-- A form without parts may be followed by whatever does not continue an atom. -/
theorem Written.leaf_follow {form : Form} {own rest other : Text}
    (written : Written (.leaf form) own rest) (delimited : Delimited rest → Delimited other)
    (ended : rest = [] → other = []) : Written (.leaf form) own other := by
  cases written with
  | atom _ _ shape ends => exact .atom own other shape (delimited ends)
  | string body value _ closed => exact .string body value other closed
  | pattern body value _ closed => exact .pattern body value other closed
  | character c run _ shape ends => exact .character c run other shape (delimited ends)
  | backslash =>
    rw [ended rfl]
    exact .backslash

/-- A closing bracket ends an atom. -/
theorem isTerminator_closing (bracket : Bracket) : isTerminator bracket.closing = true := by
  cases bracket <;> decide

mutual

/-- A spelled form may be followed by whatever does not continue it. By recursion on the spelling:
what follows matters for its last part, and the parts before it are followed by what they were. -/
theorem Spelling.follow {form : Form} {own rest other : Text} (spelled : Spelling form own rest)
    (delimited : Delimited rest → Delimited other) (ended : rest = [] → other = []) :
    Spelling form own other := by
  match spelled with
  | .leaf _ _ _ written => exact .leaf _ _ _ (written.leaf_follow delimited ended)
  | .seq bracket items body _ inside =>
    refine .seq bracket items body other (inside.follow ?_ (by simp))
    intro _
    exact delimited_cons.mpr (isTerminator_closing bracket)
  | .annotated note target lead first gap second _ leading noted between spelledTarget =>
    obtain ⟨c, run, rfl, -⟩ := spelledTarget.starts
    refine .annotated note target lead first gap _ other leading (noted.follow ?_ (by simp)) between
      (spelledTarget.follow delimited ended)
    intro ends d head
    refine ends d ?_
    cases gap <;> simpa using head
  | .marked mark gap target own lead first _ written between spelledTarget =>
    obtain ⟨c, run, rfl, -⟩ := spelledTarget.starts
    refine .marked mark gap target own lead _ other (written.head_congr ?_) between
      (spelledTarget.follow delimited ended)
    cases lead <;> simp

/-- Spelled items may be followed by whatever does not continue them. -/
theorem Items.follow {items : List Form} {body rest other : Text} (inside : Items items body rest)
    (delimited : Delimited rest → Delimited other) (ended : rest = [] → other = []) :
    Items items body other := by
  match inside with
  | .none lead _ layout => exact .none lead other layout
  | .some form forms lead own body _ layout spelled others =>
    refine .some form forms lead own body other layout (spelled.follow ?_ ?_)
      (others.follow delimited ended)
    · cases body with
      | nil => exact delimited
      | cons c run => simp
    · cases body with
      | nil => exact ended
      | cons c run => simp

end

/-- A form without parts. -/
def Form.isLeaf : Form → Bool
  | .symbol _ | .keyword _ | .string _ _ | .token _ => true
  | _ => false

/-- A form that is a lexeme by itself has no parts. -/
theorem Written.isLeaf {form : Form} {own rest : Text} (written : Written (.leaf form) own rest) :
    form.isLeaf = true := by
  cases written with
  | atom =>
    unfold Form.ofAtom
    split
    · rfl
    · split <;> rfl
  | _ => rfl

/-- The parts of a spelled sequence. -/
theorem Spelling.seq_inv {bracket : Bracket} {items : List Form} {own rest : Text}
    (spelled : Spelling (.seq bracket items) own rest) :
    ∃ body, own = bracket.opening ++ (body ++ [bracket.closing]) ∧
      Items items body (bracket.closing :: rest) := by
  generalize same : Form.seq bracket items = form at spelled
  cases spelled with
  | leaf _ _ _ written => simpa [← same, Form.isLeaf] using written.isLeaf
  | seq _ _ body _ inside =>
    obtain ⟨rfl, rfl⟩ := Form.seq.inj same
    exact ⟨body, rfl, inside⟩
  | annotated => simp at same
  | marked => simp at same

/-- The parts of a spelled form with metadata. -/
theorem Spelling.annotated_inv {note target : Form} {own rest : Text}
    (spelled : Spelling (.annotated note target) own rest) :
    ∃ lead first gap second, own = '^' :: (lead ++ (first ++ (gap ++ second))) ∧ Layout lead ∧
      Spelling note first (gap ++ (second ++ rest)) ∧ Layout gap ∧ Spelling target second rest := by
  generalize same : Form.annotated note target = form at spelled
  cases spelled with
  | leaf _ _ _ written => simpa [← same, Form.isLeaf] using written.isLeaf
  | seq => simp at same
  | annotated _ _ lead first gap second _ leading noted between spelledTarget =>
    obtain ⟨rfl, rfl⟩ := Form.annotated.inj same
    exact ⟨lead, first, gap, second, rfl, leading, noted, between, spelledTarget⟩
  | marked => simp at same

/-- The parts of a spelled form behind a mark. -/
theorem Spelling.marked_inv {mark gap : Text} {target : Form} {own rest : Text}
    (spelled : Spelling (.marked mark gap target) own rest) :
    ∃ text lead first, own = text ++ (lead ++ first) ∧
      Written (.mark mark gap) text (lead ++ (first ++ rest)) ∧ Layout lead ∧
      Spelling target first rest := by
  generalize same : Form.marked mark gap target = form at spelled
  cases spelled with
  | leaf _ _ _ written => simpa [← same, Form.isLeaf] using written.isLeaf
  | seq => simp at same
  | annotated => simp at same
  | marked _ _ _ text lead first _ written between spelledTarget =>
    obtain ⟨rfl, rfl, rfl⟩ := Form.marked.inj same
    exact ⟨text, lead, first, rfl, written, between, spelledTarget⟩

/-- A spelled form without parts is one lexeme. -/
theorem Spelling.leaf_inv {form : Form} {own rest : Text} (spelled : Spelling form own rest)
    (leaf : form.isLeaf = true) : Written (.leaf form) own rest := by
  cases spelled with
  | leaf _ _ _ written => exact written
  | _ => simp [Form.isLeaf] at leaf

end Relocate
