import Relocate.Form.Reader

/-!
# What a lexeme looks like

`Layout` is the text that may stand between two lexemes, and `Written` relates a lexeme to its own
text and to the text that follows it. What follows matters only by its first character: it must not
continue an atom, and it must not turn a mark into a longer one.

The scanner accepts exactly what is written: `scanLexeme_written` reads the lexeme back, and
`lexed_of_scanLexeme` finds the text of whatever was read. Both are about places at or behind the
start of the text, where nothing is read twice.
-/
namespace Relocate

/-- Text that may stand between two lexemes: spaces, and comments with the line end behind them. -/
inductive Layout : Text → Prop where
  | empty : Layout []
  | space (c : Char) (rest : Text) (blank : isSpace c = true) (tail : Layout rest) :
      Layout (c :: rest)
  | comment (body rest : Text) (oneLine : '\n' ∉ body) (tail : Layout rest) :
      Layout (';' :: (body ++ '\n' :: rest))

/-- Layout behind layout is layout. -/
theorem Layout.append {lead more : Text} (first : Layout lead) (second : Layout more) :
    Layout (lead ++ more) := by
  induction first with
  | empty => exact second
  | space c rest blank _ inductionHypothesis => exact .space c _ blank inductionHypothesis
  | comment body rest oneLine _ inductionHypothesis =>
    simpa using Layout.comment body _ oneLine inductionHypothesis

/-- A run of one space character is layout. -/
theorem Layout.replicate (count : Nat) {c : Char} (blank : isSpace c = true) :
    Layout (List.replicate count c) := by
  induction count with
  | zero => exact .empty
  | succ count inductionHypothesis => exact .space c _ blank inductionHypothesis

/-- The text starts with something that is no layout. -/
def StartsLexeme (text : Text) : Prop :=
  ∃ c rest, text = c :: rest ∧ isSpace c = false ∧ c ≠ ';'

/-- What continues a text that starts a lexeme starts one too. -/
theorem StartsLexeme.append {text : Text} (starts : StartsLexeme text) (more : Text) :
    StartsLexeme (text ++ more) := by
  obtain ⟨c, rest, rfl, notSpace, notComment⟩ := starts
  exact ⟨c, rest ++ more, rfl, notSpace, notComment⟩

/-- A comment ends behind its line end. -/
theorem skipComment_line (offset : Nat) (body rest : Text) (oneLine : '\n' ∉ body) :
    skipComment offset (body ++ '\n' :: rest) = skipLayout (offset + body.length + 1) rest := by
  induction body generalizing offset with
  | nil => simp [skipComment]
  | cons c body inductionHypothesis =>
    have notEnd : ¬ c = '\n' := fun equal => oneLine (by simp [equal])
    have tail : '\n' ∉ body := fun member => oneLine (by simp [member])
    simp only [List.cons_append, skipComment, notEnd, if_false]
    rw [inductionHypothesis (offset + 1) tail]
    congr 1
    simp only [List.length_cons]
    omega

/-- Layout is skipped as a whole. By induction on the layout: a space is passed at once, a comment
up to its line end. -/
theorem skipLayout_layout {lead : Text} (layout : Layout lead) (offset : Nat) (rest : Text) :
    skipLayout offset (lead ++ rest) = skipLayout (offset + lead.length) rest := by
  induction layout generalizing offset with
  | empty => simp
  | space c tail blank _ inductionHypothesis =>
    simp only [List.cons_append, skipLayout, blank, if_true]
    rw [inductionHypothesis]
    congr 1
    simp only [List.length_cons]
    omega
  | comment body tail oneLine _ inductionHypothesis =>
    have notSpace : isSpace ';' = false := by decide
    simp only [List.cons_append, List.append_assoc, skipLayout, notSpace, Bool.false_eq_true,
      if_false, if_true]
    rw [skipComment_line _ _ _ oneLine, inductionHypothesis]
    congr 1
    simp only [List.length_cons, List.length_append]
    omega

/-- Nothing is skipped where a lexeme starts. -/
theorem skipLayout_lexeme {text : Text} (starts : StartsLexeme text) (offset : Nat) :
    skipLayout offset text = ⟨0, offset, text⟩ := by
  obtain ⟨c, rest, rfl, notSpace, notComment⟩ := starts
  simp [skipLayout, notSpace, notComment]

/-- What skipping layout can do: it reaches the end of the text, or it has passed layout and stands
at a lexeme. -/
def Skipped (offset : Nat) (text : Text) (here : Cursor) : Prop :=
  here.rest = [] ∨ ∃ lead, text = lead ++ here.rest ∧ Layout lead ∧ StartsLexeme here.rest ∧
    here = ⟨0, offset + lead.length, here.rest⟩

mutual

/-- Skipping layout passes all of it. By recursion on the text, in step with the skipping of
comments. -/
theorem skipLayout_skipped (offset : Nat) :
    (text : Text) → Skipped offset text (skipLayout offset text)
  | [] => by simp [skipLayout, Skipped]
  | c :: rest => by
    by_cases blank : isSpace c = true
    · rw [skipLayout, if_pos blank]
      obtain ended | ⟨lead, same, layout, starts, place⟩ := skipLayout_skipped (offset + 1) rest
      · exact .inl ended
      · refine .inr
          ⟨c :: lead, by rw [List.cons_append, ← same], .space c lead blank layout, starts, ?_⟩
        rw [place]
        simp only [List.length_cons, Cursor.mk.injEq, true_and, and_true]
        omega
    · by_cases comment : c = ';'
      · subst comment
        rw [skipLayout, if_neg blank, if_pos rfl]
        obtain ended | ⟨body, lead, same, oneLine, layout, starts, place⟩ :=
          skipComment_skipped (offset + 1) rest
        · exact .inl ended
        · refine .inr
            ⟨';' :: (body ++ '\n' :: lead), ?_, .comment body lead oneLine layout, starts, ?_⟩
          · simpa using same
          · rw [place]
            simp only [List.length_cons, List.length_append, Cursor.mk.injEq, true_and, and_true]
            omega
      · rw [skipLayout, if_neg blank, if_neg comment]
        have notSpace : isSpace c = false := by simpa using blank
        exact .inr ⟨[], rfl, .empty, ⟨c, rest, rfl, notSpace, comment⟩, by simp⟩

/-- Skipping a comment passes its line and the layout behind it, or ends with the text if no line
end follows. By recursion on the text, together with the skipping of layout. -/
theorem skipComment_skipped (offset : Nat) : (text : Text) →
    (skipComment offset text).rest = [] ∨ ∃ body lead,
      text = body ++ '\n' :: (lead ++ (skipComment offset text).rest) ∧ '\n' ∉ body ∧ Layout lead ∧
      StartsLexeme (skipComment offset text).rest ∧ skipComment offset text =
        ⟨0, offset + body.length + 1 + lead.length, (skipComment offset text).rest⟩
  | [] => by simp [skipComment]
  | c :: rest => by
    by_cases lineEnd : c = '\n'
    · subst lineEnd
      rw [skipComment, if_pos rfl]
      obtain ended | ⟨lead, same, layout, starts, place⟩ := skipLayout_skipped (offset + 1) rest
      · exact .inl ended
      · refine .inr ⟨[], lead, by rw [List.nil_append, ← same], by simp, layout, starts, ?_⟩
        simpa using place
    · rw [skipComment, if_neg lineEnd]
      obtain ended | ⟨body, lead, same, oneLine, layout, starts, place⟩ :=
        skipComment_skipped (offset + 1) rest
      · exact .inl ended
      · refine .inr ⟨c :: body, lead, by rw [List.cons_append, ← same], ?_, layout, starts, ?_⟩
        · simp only [List.mem_cons, not_or]
          exact ⟨fun equal => lineEnd equal.symm, oneLine⟩
        · rw [place]
          simp only [List.length_cons, Cursor.mk.injEq, true_and, and_true]
          omega

end

/-- What follows does not continue an atom. -/
def Delimited (rest : Text) : Prop := ∀ c, rest.head? = some c → isTerminator c = true

/-- The end of the text ends an atom. -/
@[simp] theorem delimited_nil : Delimited [] := by simp [Delimited]

/-- A text ends an atom if its first character does. -/
@[simp] theorem delimited_cons {c : Char} {rest : Text} :
    Delimited (c :: rest) ↔ isTerminator c = true := by
  simp [Delimited]

/-- A character that an atom, and no other lexeme, starts with. -/
def isAtomStart (c : Char) : Bool :=
  !isTerminator c && c ≠ '^' && c ≠ '~' && c ≠ '\x27' && c ≠ '\x60' && c ≠ '@' && c ≠ '#' &&
    c ≠ '\\'

/-- The text holds no character that ends an atom. -/
def isRun (text : Text) : Bool := text.all fun c => !isTerminator c

/-- The text is that of an atom. -/
def isAtom : Text → Bool
  | [] => false
  | c :: run => isAtomStart c && isRun run

/-- The text is that of a tag, as it stands behind a hash sign. -/
def isTag : Text → Bool
  | [] => false
  | c :: run => c ≠ '_' && c ≠ '\x27' && c ≠ '?' && isRun (c :: run)

/-- What stands between a tag and its form when they are written: the tag of a map stands close. -/
def tagGap : Text → Text
  | ':' :: _ => []
  | _ => [' ']

/-- How far reading passes the end of the text behind a form: a backslash that ends the text counts
as if a character followed. -/
def Form.overhang : Form → Nat
  | .token text => if text = ['\\'] then 1 else 0
  | .annotated _ target => target.overhang
  | .marked _ _ target => target.overhang
  | _ => 0

/-- How far reading passes the end of the text behind a lexeme. -/
def Lexeme.overhang : Lexeme → Nat
  | .leaf form => form.overhang
  | _ => 0

/-- A lexeme other than an opening bracket, its own text, and what follows it. -/
inductive Written : Lexeme → Text → Text → Prop where
  | closing (bracket : Bracket) (rest : Text) :
      Written (.closing bracket.closing) [bracket.closing] rest
  | note (rest : Text) : Written .note ['^'] rest
  | quote (c : Char) (rest : Text) (known : c = '\x27' ∨ c = '\x60' ∨ c = '@') :
      Written (.mark [c] []) [c] rest
  | unquote (rest : Text) (single : rest.head? ≠ some '@') : Written (.mark ['~'] []) ['~'] rest
  | splice (rest : Text) : Written (.mark ['~', '@'] []) ['~', '@'] rest
  | hashed (c : Char) (rest : Text) (known : c = '_' ∨ c = '\x27') :
      Written (.mark ['#', c] []) ['#', c] rest
  | conditional (rest : Text) (single : rest.head? ≠ some '@') :
      Written (.mark ['#', '?'] []) ['#', '?'] rest
  | conditionalSplice (rest : Text) : Written (.mark ['#', '?', '@'] []) ['#', '?', '@'] rest
  | function (rest : Text) (applied : rest.head? = some '(') : Written (.mark ['#'] []) ['#'] rest
  | tag (tag rest : Text) (shape : isTag tag = true) (ended : Delimited rest) :
      Written (.mark ('#' :: tag) (tagGap tag)) ('#' :: tag) rest
  | atom (atom rest : Text) (shape : isAtom atom = true) (ended : Delimited rest) :
      Written (.leaf (.ofAtom atom)) atom rest
  | string (body value rest : Text) (closed : scanString body = some (value, body.length)) :
      Written (.leaf (.string value ('"' :: body))) ('"' :: body) rest
  | pattern (body value rest : Text) (closed : scanString body = some (value, body.length)) :
      Written (.leaf (.token ('#' :: '"' :: body))) ('#' :: '"' :: body) rest
  | character (c : Char) (run rest : Text) (shape : isRun run = true) (ended : Delimited rest) :
      Written (.leaf (.token ('\\' :: c :: run))) ('\\' :: c :: run) rest
  | backslash : Written (.leaf (.token ['\\'])) ['\\'] []

/-- A run in front of what does not continue it is the whole atom text. -/
theorem atomText_run {run rest : Text} (shape : isRun run = true) (ended : Delimited rest) :
    atomText (run ++ rest) = run := by
  simp only [isRun, List.all_eq_true] at shape
  rw [atomText, List.takeWhile_append_of_pos shape]
  cases rest with
  | nil => simp
  | cons c rest => simp [delimited_cons.mp ended]

/-- What is left behind an atom text does not continue it. -/
theorem delimited_drop_atomText (text : Text) : Delimited (text.drop (atomText text).length) := by
  induction text with
  | nil => exact delimited_nil
  | cons c rest inductionHypothesis =>
    by_cases stop : isTerminator c = true
    · simp [atomText, stop]
    · simpa [atomText, stop] using inductionHypothesis

/-- The longest run of atom characters is one. -/
@[simp] theorem isRun_atomText (text : Text) : isRun (atomText text) = true := by
  rw [isRun, atomText]
  exact List.all_takeWhile

/-- A text is its atom text and what is left behind it. -/
theorem atomText_append_drop (text : Text) :
    text = atomText text ++ text.drop (atomText text).length := by
  induction text with
  | nil => rfl
  | cons c rest inductionHypothesis =>
    by_cases stop : isTerminator c = true
    · simp [atomText, stop]
    · simp only [atomText] at inductionHypothesis
      simp [atomText, stop, ← inductionHypothesis]

/-- An atom is cut out of the text as it is read. -/
@[simp] theorem cut_atomText (offset : Nat) (text : Text) :
    Cursor.cut ⟨0, offset, text⟩ (atomText text).length = atomText text :=
  (List.prefix_iff_eq_take.mp (List.takeWhile_prefix _)).symm

/-- A character that is neither a quote nor a backslash stands for itself in a string. -/
theorem scanString_plain {c : Char} (notQuote : c ≠ '"') (notBackslash : c ≠ '\\') (rest : Text) :
    scanString (c :: rest) =
      (scanString rest).map fun (value, count) => (c :: value, count + 1) := by
  rw [scanString]
  · exact notQuote
  · intro d more equal
    exact absurd equal notBackslash

/-- A closed string is not empty, so a backslash in front of it would take a character. -/
theorem not_backslash_of_closed {c : Char} {rest : Text} {read : Text × Nat}
    (closed : scanString rest = some read)
    (notEscape : ∀ d more, c = '\\' → rest = d :: more → False) : c ≠ '\\' := by
  rintro rfl
  cases rest with
  | nil => simp [scanString] at closed
  | cons d more => exact notEscape d more rfl rfl

/-- What follows a closed string does not matter to it. -/
theorem scanString_append (body value : Text) (count : Nat) (rest : Text)
    (closed : scanString body = some (value, count)) :
    scanString (body ++ rest) = some (value, count) := by
  fun_induction scanString body generalizing value count with
  | case1 => simp at closed
  | case2 tail => simpa [scanString] using closed
  | case3 c tail inductionHypothesis =>
    obtain ⟨⟨inner, length⟩, found, same⟩ := Option.map_eq_some_iff.mp closed
    simp [scanString, inductionHypothesis inner length found, ← same]
  | case4 c tail notQuote notEscape inductionHypothesis =>
    obtain ⟨⟨inner, length⟩, found, same⟩ := Option.map_eq_some_iff.mp closed
    rw [List.cons_append, scanString_plain notQuote (not_backslash_of_closed found notEscape),
      inductionHypothesis inner length found, ← same]
    rfl

/-- A string ends within the text, and what it spells is closed on its own. By induction along the
scan, whose count never passes the closing quote. -/
theorem scanString_take (text value : Text) (count : Nat)
    (closed : scanString text = some (value, count)) :
    count ≤ text.length ∧ scanString (text.take count) = some (value, count) := by
  fun_induction scanString text generalizing value count with
  | case1 => simp at closed
  | case2 tail =>
    simp only [Option.some.injEq, Prod.mk.injEq] at closed
    simp [← closed.1, ← closed.2, scanString]
  | case3 c tail inductionHypothesis =>
    obtain ⟨⟨inner, length⟩, found, same⟩ := Option.map_eq_some_iff.mp closed
    obtain ⟨bound, again⟩ := inductionHypothesis inner length found
    simp only [Prod.mk.injEq] at same
    rw [← same.1, ← same.2]
    refine ⟨by simp only [List.length_cons]; omega, ?_⟩
    simp [scanString, again]
  | case4 c tail notQuote notEscape inductionHypothesis =>
    obtain ⟨⟨inner, length⟩, found, same⟩ := Option.map_eq_some_iff.mp closed
    obtain ⟨bound, again⟩ := inductionHypothesis inner length found
    simp only [Prod.mk.injEq] at same
    rw [← same.1, ← same.2]
    refine ⟨by simp only [List.length_cons]; omega, ?_⟩
    rw [List.take_succ_cons, scanString_plain notQuote (not_backslash_of_closed found notEscape),
      again]
    rfl

/-- An opening bracket is read by its characters alone. -/
theorem scanLexeme_opening (bracket : Bracket) (offset : Nat) (rest : Text) :
    ∃ position, scanLexeme ⟨0, offset, bracket.opening ++ rest⟩ =
      .ok (.opening bracket position, ⟨0, offset + bracket.opening.length, rest⟩) := by
  cases bracket <;> exact ⟨_, rfl⟩

/-- Where an atom starts, an atom is read. -/
theorem scanLexeme_atomStart {c : Char} (starts : isAtomStart c = true) (offset : Nat)
    (rest : Text) : scanLexeme ⟨0, offset, c :: rest⟩ = scanAtom c ⟨0, offset, c :: rest⟩ := by
  rw [scanLexeme]
  split
  case h_16 other tail _ _ _ _ _ _ _ _ _ _ _ _ _ _ same =>
    rw [(List.cons.inj same).1]
  case h_1 same => cases same
  all_goals
    rename_i same
    rw [(List.cons.inj same).1] at starts
    exact absurd starts (by decide)

/-- Where a tag starts behind a hash sign, the tag is read up to where it ends. A tag starts with
none of the characters that mean something else behind a hash sign. -/
theorem scanDispatch_tag {tag rest : Text} (shape : isTag tag = true) (ended : Delimited rest)
    (offset : Nat) :
    scanDispatch ⟨0, offset, '#' :: (tag ++ rest)⟩ =
      .ok (.mark ('#' :: tag) (tagGap tag), ⟨0, offset + tag.length + 1, rest⟩) := by
  cases tag with
  | nil => simp [isTag] at shape
  | cons c run =>
    simp only [isTag, Bool.and_eq_true, decide_eq_true_eq] at shape
    obtain ⟨⟨⟨notDiscard, notVariable⟩, notConditional⟩, isRun⟩ := shape
    have whole := atomText_run isRun ended
    have notTerminator : isTerminator c = false := by
      simpa using (List.all_eq_true.mp isRun) c (by simp)
    have cut : Cursor.cut ⟨0, offset + 1, c :: run ++ rest⟩ (c :: run).length = c :: run := by
      simp [Cursor.cut]
    have after : Cursor.advance ⟨0, offset + 1, c :: run ++ rest⟩ (c :: run).length =
        ⟨0, offset + (c :: run).length + 1, rest⟩ := by
      simp [Cursor.advance]
      omega
    rw [scanDispatch]
    have here : Cursor.advance ⟨0, offset, '#' :: (c :: run ++ rest)⟩ 1 =
        ⟨0, offset + 1, c :: run ++ rest⟩ := by
      simp [Cursor.advance]
    simp only [here]
    split
    case h_8 other tail _ _ _ _ _ _ same =>
      rw [whole, cut, after]
      by_cases colon : c = ':'
      · subst colon
        rfl
      · simp [tagGap, colon]
    case h_1 same => cases same
    all_goals
      rename_i same
      rw [List.cons_append, List.cons.injEq] at same
      simp only [same.1] at notTerminator notDiscard notVariable notConditional
      first
        | exact absurd notTerminator (by decide)
        | exact absurd rfl notDiscard
        | exact absurd rfl notVariable
        | exact absurd rfl notConditional

/-- A character that starts an atom does not end one. -/
theorem isTerminator_of_isAtomStart {c : Char} (starts : isAtomStart c = true) :
    isTerminator c = false := by
  simp only [isAtomStart, Bool.and_eq_true, Bool.not_eq_true'] at starts
  exact starts.1.1.1.1.1.1.1

/-- An atom holds no character that would end it. -/
theorem isRun_of_isAtom {atom : Text} (shape : isAtom atom = true) : isRun atom = true := by
  cases atom with
  | nil => rfl
  | cons c run =>
    simp only [isAtom, Bool.and_eq_true] at shape
    have first := isTerminator_of_isAtomStart shape.1
    have others : run.all (fun c => !isTerminator c) = true := shape.2
    simp [isRun, first, others]

/-- Reading an atom never passes the end of the text. -/
theorem overhang_ofAtom {atom : Text} (shape : isAtom atom = true) :
    (Form.ofAtom atom).overhang = 0 := by
  have notBackslash : atom ≠ ['\\'] := by
    rintro rfl
    exact absurd shape (by decide)
  unfold Form.ofAtom
  split
  · rfl
  · split
    · simp [Form.overhang, notBackslash]
    · rfl

/-- An atom is read up to where it ends. -/
theorem scanLexeme_atom {atom rest : Text} (shape : isAtom atom = true) (ended : Delimited rest)
    (offset : Nat) :
    scanLexeme ⟨0, offset, atom ++ rest⟩ =
      .ok (.leaf (.ofAtom atom), ⟨0, offset + atom.length, rest⟩) := by
  have whole := atomText_run (isRun_of_isAtom shape) ended
  cases atom with
  | nil => simp [isAtom] at shape
  | cons c run =>
    simp only [isAtom, Bool.and_eq_true] at shape
    rw [List.cons_append] at whole ⊢
    rw [scanLexeme_atomStart shape.1, scanAtom]
    simp [whole, Cursor.cut, Cursor.advance]

/-- A string is read up to its closing quote. -/
theorem scanQuoted_closed {body value : Text} (closed : scanString body = some (value, body.length))
    (offset : Nat) (rest : Text) :
    scanQuoted ⟨0, offset, '"' :: (body ++ rest)⟩ =
      .ok (value, '"' :: body, ⟨0, offset + body.length + 1, rest⟩) := by
  have again := scanString_append body value body.length rest closed
  simp only [scanQuoted, List.drop_succ_cons, List.drop_zero, again]
  simp [Cursor.cut, Cursor.advance]
  omega

/-- The character behind a mark tells whether it is the one that splices. -/
theorem startsWith_splice (mark rest : Text) :
    Text.startsWith (mark ++ ['@']) (mark ++ rest) = decide (rest.head? = some '@') := by
  induction mark with
  | nil =>
    cases rest with
    | nil => rfl
    | cons c rest =>
      rw [Bool.eq_iff_iff]
      simpa [Text.startsWith, List.isPrefixOf] using eq_comm
  | cons c mark inductionHypothesis => simpa [Text.startsWith] using inductionHypothesis

/-- Whether an unquote mark is one that splices depends on the next character. -/
@[simp] theorem startsWith_unquote (rest : Text) :
    Text.startsWith ['~', '@'] ('~' :: rest) = decide (rest.head? = some '@') :=
  startsWith_splice ['~'] rest

/-- Whether a conditional mark is one that splices depends on the next character. -/
@[simp] theorem startsWith_conditional (rest : Text) :
    Text.startsWith ['#', '?', '@'] ('#' :: '?' :: rest) = decide (rest.head? = some '@') :=
  startsWith_splice ['#', '?'] rest

/-- The scanner reads back what is written. One case for each way to write a lexeme. -/
theorem scanLexeme_written {lexeme : Lexeme} {text rest : Text} (written : Written lexeme text rest)
    (offset : Nat) :
    scanLexeme ⟨0, offset, text ++ rest⟩ =
      .ok (lexeme, ⟨0, offset + text.length + lexeme.overhang, rest⟩) := by
  cases written with
  | closing bracket => cases bracket <;> rfl
  | note => rfl
  | quote c _ known => rcases known with rfl | rfl | rfl <;> rfl
  | unquote _ single =>
    simp [scanLexeme, Cursor.ahead, single, Cursor.advance, Lexeme.overhang]
  | splice => rfl
  | hashed c _ known => rcases known with rfl | rfl <;> rfl
  | conditional _ single =>
    simp [scanLexeme, scanDispatch, Cursor.ahead, single, Cursor.advance, Lexeme.overhang]
  | conditionalSplice => rfl
  | function _ applied =>
    cases rest with
    | nil => simp at applied
    | cons c rest =>
      obtain rfl : c = '(' := by simpa using applied
      rfl
  | tag tag _ shape ended => exact scanDispatch_tag shape ended offset
  | atom _ _ shape ended =>
    rw [scanLexeme_atom shape ended, Lexeme.overhang, overhang_ofAtom shape]
    rfl
  | string body value _ closed =>
    simp [scanLexeme, scanQuoted_closed closed, Lexeme.overhang, Form.overhang]
    omega
  | pattern body value _ closed =>
    simp [scanLexeme, scanDispatch, Cursor.advance, scanQuoted_closed closed, Lexeme.overhang,
      Form.overhang]
    omega
  | character c run _ shape ended =>
    have whole := atomText_run shape ended
    simp [scanLexeme, scanCharacter, whole, Cursor.cut, Cursor.advance, Lexeme.overhang,
      Form.overhang]
  | backslash => rfl

/-- The text of a lexeme at the start of a text, and what is left behind it. -/
def Lexed (lexeme : Lexeme) (text : Text) : Prop :=
  ∃ own rest, text = own ++ rest ∧
    (Written lexeme own rest ∨ ∃ bracket position,
      lexeme = .opening bracket position ∧ own = bracket.opening)

/-- What is read as a string ends in its closing quote. -/
theorem closed_of_scanQuoted {offset : Nat} {tail value raw : Text} {after : Cursor}
    (scanned : scanQuoted ⟨0, offset, '"' :: tail⟩ = .ok (value, raw, after)) :
    ∃ body rest, tail = body ++ rest ∧ raw = '"' :: body ∧
      scanString body = some (value, body.length) := by
  simp only [scanQuoted, List.drop_succ_cons, List.drop_zero] at scanned
  split at scanned
  · simp [Cursor.fail] at scanned
  · rename_i found count same
    obtain ⟨bound, again⟩ := scanString_take tail found count same
    simp only [Except.ok.injEq, Prod.mk.injEq] at scanned
    obtain ⟨rfl, rfl, -⟩ := scanned
    have length : (tail.take count).length = count := by
      rw [List.length_take]
      omega
    refine ⟨tail.take count, tail.drop count, (List.take_append_drop count tail).symm, ?_, ?_⟩
    · simp [Cursor.cut]
    · rw [again, length]

/-- What is read at a hash sign is written there. By cases on the character behind the sign; the
last case is a tag, whose run is cut off there. -/
theorem lexed_of_scanDispatch {offset : Nat} {tail : Text} {lexeme : Lexeme} {after : Cursor}
    (scanned : scanDispatch ⟨0, offset, '#' :: tail⟩ = .ok (lexeme, after)) :
    Lexed lexeme ('#' :: tail) := by
  have here : Cursor.advance ⟨0, offset, '#' :: tail⟩ 1 = ⟨0, offset + 1, tail⟩ := by
    simp [Cursor.advance]
  simp only [scanDispatch, here] at scanned
  split at scanned
  · simp at scanned
  · rename_i rest
    simp only [Except.ok.injEq, Prod.mk.injEq] at scanned
    exact ⟨['#', '{'], rest, rfl, .inr ⟨.set, _, scanned.1.symm, rfl⟩⟩
  · rename_i rest
    split at scanned
    · simp at scanned
    · rename_i value raw place read
      simp only [Except.ok.injEq, Prod.mk.injEq] at scanned
      obtain ⟨body, left, rfl, rfl, closed⟩ := closed_of_scanQuoted read
      rw [← scanned.1]
      exact ⟨'#' :: '"' :: body, left, rfl, .inl (.pattern body value left closed)⟩
  · rename_i rest
    simp only [Except.ok.injEq, Prod.mk.injEq] at scanned
    rw [← scanned.1]
    exact ⟨['#', '_'], rest, rfl, .inl (.hashed '_' rest (.inl rfl))⟩
  · rename_i rest
    simp only [Except.ok.injEq, Prod.mk.injEq] at scanned
    rw [← scanned.1]
    exact ⟨['#', '\x27'], rest, rfl, .inl (.hashed '\x27' rest (.inr rfl))⟩
  · rename_i rest
    simp only [Cursor.ahead, if_true, startsWith_conditional, decide_eq_true_eq] at scanned
    split at scanned
    case isTrue splice =>
      obtain ⟨left, rfl⟩ := List.head?_eq_some_iff.mp splice
      rw [← (Prod.mk.inj (Except.ok.inj scanned)).1]
      exact ⟨['#', '?', '@'], left, rfl, .inl (.conditionalSplice left)⟩
    case isFalse single =>
      rw [← (Prod.mk.inj (Except.ok.inj scanned)).1]
      exact ⟨['#', '?'], rest, rfl, .inl (.conditional rest single)⟩
  · rename_i rest
    simp only [Except.ok.injEq, Prod.mk.injEq] at scanned
    rw [← scanned.1]
    exact ⟨['#'], '(' :: rest, rfl, .inl (.function _ rfl)⟩
  · rename_i c rest notSet notString notDiscard notVariable notConditional notFunction
    rw [cut_atomText] at scanned
    have split := atomText_append_drop (c :: rest)
    have ended := delimited_drop_atomText (c :: rest)
    have run := isRun_atomText (c :: rest)
    generalize atomText (c :: rest) = tag at scanned split ended run
    cases tag with
    | nil => simp at scanned
    | cons first run' =>
      obtain rfl : c = first := (List.cons.inj split).1
      have shape : isTag (c :: run') = true := by
        simp [isTag, run]
        exact ⟨⟨notDiscard, notVariable⟩, notConditional⟩
      have written := Written.tag (c :: run') _ shape ended
      refine ⟨'#' :: c :: run', _, congrArg ('#' :: ·) split, .inl ?_⟩
      by_cases colon : c = ':'
      · subst colon
        simp only [Except.ok.injEq, Prod.mk.injEq] at scanned
        rw [← scanned.1]
        exact written
      · simp [colon] at scanned
        rw [← scanned.1]
        simpa [tagGap, colon] using written

/-- What is read as a character literal is written as one. -/
theorem lexed_of_scanCharacter (offset : Nat) (tail : Text) :
    Lexed (scanCharacter ⟨0, offset, '\\' :: tail⟩).1 ('\\' :: tail) := by
  cases tail with
  | nil => exact ⟨['\\'], [], rfl, .inl .backslash⟩
  | cons c rest =>
    have cut := cut_atomText offset rest
    have token : (scanCharacter ⟨0, offset, '\\' :: c :: rest⟩).1 =
        .leaf (.token ('\\' :: c :: atomText rest)) := by
      simp only [Cursor.cut, decide_true, Bool.true_or, if_true] at cut
      simp [scanCharacter, Cursor.cut, cut]
    rw [token]
    refine ⟨'\\' :: c :: atomText rest, rest.drop (atomText rest).length, ?_, .inl ?_⟩
    · simp [← atomText_append_drop rest]
    · exact .character c _ _ (isRun_atomText rest) (delimited_drop_atomText rest)

/-- What is read as an atom is written as one. The atom is the longest run of characters that
continue it, so that what follows does not. -/
theorem lexed_of_scanAtom {offset : Nat} {c : Char} {tail : Text} {lexeme : Lexeme}
    {after : Cursor} (starts : isAtomStart c = true)
    (scanned : scanAtom c ⟨0, offset, c :: tail⟩ = .ok (lexeme, after)) :
    Lexed lexeme (c :: tail) := by
  rw [scanAtom, cut_atomText] at scanned
  have split := atomText_append_drop (c :: tail)
  have ended := delimited_drop_atomText (c :: tail)
  have run := isRun_atomText (c :: tail)
  generalize atomText (c :: tail) = atom at scanned split ended run
  cases atom with
  | nil => simp at scanned
  | cons first others =>
    obtain rfl : c = first := (List.cons.inj split).1
    have shape : isAtom (c :: others) = true := by
      simp only [isRun, List.all_cons, Bool.and_eq_true] at run
      simp [isAtom, starts, isRun, run.2]
    rw [← (Prod.mk.inj (Except.ok.inj scanned)).1]
    exact ⟨c :: others, _, split, .inl (.atom _ _ shape ended)⟩

/-- Whatever the scanner reads is written in the text. By cases on the first character, as the
scanner decides by it. -/
theorem lexed_of_scanLexeme {offset : Nat} {text : Text} {lexeme : Lexeme} {after : Cursor}
    (starts : StartsLexeme text)
    (scanned : scanLexeme ⟨0, offset, text⟩ = .ok (lexeme, after)) : Lexed lexeme text := by
  obtain ⟨c, tail, rfl, notSpace, notComment⟩ := starts
  simp only [scanLexeme] at scanned
  split at scanned
  case h_1 same => cases same
  case h_2 _ same =>
    obtain ⟨rfl, rfl⟩ := List.cons.inj same
    rw [← (Prod.mk.inj (Except.ok.inj scanned)).1]
    exact ⟨['('], tail, rfl, .inr ⟨.list, _, rfl, rfl⟩⟩
  case h_3 _ same =>
    obtain ⟨rfl, rfl⟩ := List.cons.inj same
    rw [← (Prod.mk.inj (Except.ok.inj scanned)).1]
    exact ⟨['['], tail, rfl, .inr ⟨.vector, _, rfl, rfl⟩⟩
  case h_4 _ same =>
    obtain ⟨rfl, rfl⟩ := List.cons.inj same
    rw [← (Prod.mk.inj (Except.ok.inj scanned)).1]
    exact ⟨['{'], tail, rfl, .inr ⟨.map, _, rfl, rfl⟩⟩
  case h_5 _ same =>
    obtain ⟨rfl, rfl⟩ := List.cons.inj same
    rw [← (Prod.mk.inj (Except.ok.inj scanned)).1]
    exact ⟨[')'], tail, rfl, .inl (.closing .list tail)⟩
  case h_6 _ same =>
    obtain ⟨rfl, rfl⟩ := List.cons.inj same
    rw [← (Prod.mk.inj (Except.ok.inj scanned)).1]
    exact ⟨[']'], tail, rfl, .inl (.closing .vector tail)⟩
  case h_7 _ same =>
    obtain ⟨rfl, rfl⟩ := List.cons.inj same
    rw [← (Prod.mk.inj (Except.ok.inj scanned)).1]
    exact ⟨['}'], tail, rfl, .inl (.closing .map tail)⟩
  case h_8 _ same =>
    obtain ⟨rfl, rfl⟩ := List.cons.inj same
    split at scanned
    · simp at scanned
    · rename_i value raw place read
      obtain ⟨body, left, rfl, rfl, closed⟩ := closed_of_scanQuoted read
      rw [← (Prod.mk.inj (Except.ok.inj scanned)).1]
      exact ⟨'"' :: body, left, rfl, .inl (.string body value left closed)⟩
  case h_9 _ same =>
    obtain ⟨rfl, rfl⟩ := List.cons.inj same
    rw [← (Prod.mk.inj (Except.ok.inj scanned)).1]
    exact ⟨['^'], tail, rfl, .inl (.note tail)⟩
  case h_10 _ same =>
    obtain ⟨rfl, rfl⟩ := List.cons.inj same
    simp only [Cursor.ahead, if_true, startsWith_unquote, decide_eq_true_eq] at scanned
    split at scanned
    case isTrue splice =>
      obtain ⟨left, rfl⟩ := List.head?_eq_some_iff.mp splice
      rw [← (Prod.mk.inj (Except.ok.inj scanned)).1]
      exact ⟨['~', '@'], left, rfl, .inl (.splice left)⟩
    case isFalse single =>
      rw [← (Prod.mk.inj (Except.ok.inj scanned)).1]
      exact ⟨['~'], tail, rfl, .inl (.unquote tail single)⟩
  case h_11 _ same =>
    obtain ⟨rfl, rfl⟩ := List.cons.inj same
    rw [← (Prod.mk.inj (Except.ok.inj scanned)).1]
    exact ⟨['\x27'], tail, rfl, .inl (.quote _ tail (.inl rfl))⟩
  case h_12 _ same =>
    obtain ⟨rfl, rfl⟩ := List.cons.inj same
    rw [← (Prod.mk.inj (Except.ok.inj scanned)).1]
    exact ⟨['\x60'], tail, rfl, .inl (.quote _ tail (.inr (.inl rfl)))⟩
  case h_13 _ same =>
    obtain ⟨rfl, rfl⟩ := List.cons.inj same
    rw [← (Prod.mk.inj (Except.ok.inj scanned)).1]
    exact ⟨['@'], tail, rfl, .inl (.quote _ tail (.inr (.inr rfl)))⟩
  case h_14 _ same =>
    obtain ⟨rfl, rfl⟩ := List.cons.inj same
    exact lexed_of_scanDispatch scanned
  case h_15 _ same =>
    obtain ⟨rfl, rfl⟩ := List.cons.inj same
    have read := lexed_of_scanCharacter offset tail
    rwa [Except.ok.inj scanned] at read
  case h_16 d rest notList notVector notMap endList endVector endMap notString notNote notUnquote
      notQuote notTemplate notDeref notHash notCharacter same =>
    obtain ⟨rfl, rfl⟩ := List.cons.inj same
    have starts : isAtomStart c = true := by
      simp_all [isAtomStart, isTerminator]
    exact lexed_of_scanAtom starts scanned

end Relocate
