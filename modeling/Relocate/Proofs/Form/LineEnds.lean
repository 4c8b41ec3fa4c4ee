import Relocate.CommandLine.Run
import Relocate.Proofs.Form.Spelling

/-!
# Texts with other line ends

A file may be read as it is, or with a line end in the place of each return and of each return with
the line end behind it. Space is the same for the two readings, and so is what a string holds, up to
its characters. They part at two places. A return ends a comment for the second reading alone, so
that what follows it on the line may be code. And where a return is itself a character literal, the
second reading takes the line end behind it into the literal, and what follows may continue it.

`Region` follows both readings at once, and `Region.agrees` says that they do not part. Then they
find the same forms, up to what strings and literals hold: `Spelling.unixLines`. They never part in
a text with either of the usual line ends: `Region.agrees_of_returnsJoined`.
-/
namespace Relocate

/-- What a place of a text belongs to, for both readings. -/
inductive Region where
  /-- Layout, or behind a bracket, a mark or a string. -/
  | between
  /-- Behind a hash sign. -/
  | hash
  | atom
  /-- Behind the backslash of a character literal. -/
  | character
  /-- Behind a return that is a character literal. -/
  | literalReturn
  | string
  /-- Behind a backslash in a string. -/
  | escape
  | comment
  /-- Behind a return in a comment, and perhaps space. The comment goes on for one reading and has
  ended for the other. -/
  | brokenComment
deriving DecidableEq

namespace Region

/-- The region that a character leads to where no lexeme goes on. -/
def opened (c : Char) : Region :=
  if c = ';' then .comment
  else if c = '"' then .string
  else if c = '\\' then .character
  else if c = '#' then .hash
  else if isAtomStart c then .atom
  else .between

/-- The region that a character leads to within an atom. -/
def ofAtom (c : Char) : Region := if isTerminator c then opened c else .atom

/-- The region behind one more character, unless the readings part there. -/
def next? : Region → Char → Option Region
  | .between, c => some (opened c)
  | .hash, c => some (if c = '_' || c = '\x27' || c = '?' then .between else ofAtom c)
  | .atom, c => some (ofAtom c)
  | .character, c => some (if c = '\r' then .literalReturn else .atom)
  | .literalReturn, c => if c = '\n' then none else some (ofAtom c)
  | .string, c => some (if c = '"' then .between else if c = '\\' then .escape else .string)
  | .escape, _ => some .string
  | .comment, c =>
    some (if c = '\n' then .between else if c = '\r' then .brokenComment else .comment)
  | .brokenComment, c =>
    if c = '\n' then some .between
    else if c = ';' then some .comment
    else if isSpace c then some .brokenComment
    else none

/-- The readings of a text do not part. -/
def agrees : Region → Text → Bool
  | _, [] => true
  | region, c :: rest =>
    match region.next? c with
    | none => false
    | some after => after.agrees rest

/-- The readings go on alike with a character if it leads both to one region and they go on alike
from there. -/
theorem agrees_cons {region : Region} {c : Char} {rest : Text} :
    region.agrees (c :: rest) = true ↔
      ∃ after, region.next? c = some after ∧ after.agrees rest = true := by
  rw [agrees]
  cases region.next? c <;> simp

/-- Where the next character always leads to one region, the readings go on there. -/
theorem agrees_cons_of_next {region after : Region} {c : Char} {rest : Text}
    (next : region.next? c = some after) :
    region.agrees (c :: rest) = true ↔ after.agrees rest = true := by
  simp [agrees_cons, next]

/-- What does not continue an atom is read alike behind it and elsewhere. A terminator leads from an
atom to where it leads from between the forms. -/
theorem agrees_of_delimited {region : Region} {rest : Text}
    (ends : region = .atom ∨ region = .literalReturn) (ended : Delimited rest)
    (alike : region.agrees rest = true) : Region.between.agrees rest = true := by
  cases rest with
  | nil => rfl
  | cons c rest =>
    have terminator := delimited_cons.mp ended
    obtain ⟨after, next, later⟩ := agrees_cons.mp alike
    have same : after = opened c := by
      obtain rfl | rfl := ends
      · simpa [next?, ofAtom, terminator] using next.symm
      · by_cases lineEnd : c = '\n'
        · simp [next?, lineEnd] at next
        · simpa [next?, lineEnd, ofAtom, terminator] using next.symm
    exact agrees_cons.mpr ⟨opened c, rfl, same ▸ later⟩

/-- A run of atom characters is passed, at the end of an atom or of a literal. -/
theorem agrees_run {region : Region} (ends : region = .atom ∨ region = .literalReturn)
    {run rest : Text} (shape : isRun run = true) (ended : Delimited rest)
    (alike : region.agrees (run ++ rest) = true) : Region.between.agrees rest = true := by
  induction run generalizing region with
  | nil => exact agrees_of_delimited ends ended alike
  | cons c run inductionHypothesis =>
    simp only [isRun, List.all_cons, Bool.and_eq_true, Bool.not_eq_true'] at shape
    have notEnd : c ≠ '\n' := by
      rintro rfl
      exact absurd shape.1 (by decide)
    have next : region.next? c = some .atom := by
      obtain rfl | rfl := ends <;> simp [next?, ofAtom, notEnd, shape.1]
    exact inductionHypothesis (.inl rfl) shape.2 ((agrees_cons_of_next next).mp alike)

/-- Each return stands in front of a line end, and none behind a backslash. -/
def returnsJoined : Text → Bool
  | [] => true
  | c :: rest =>
    (c ≠ '\r' || rest.head? = some '\n') && (c ≠ '\\' || rest.head? ≠ some '\r') &&
      returnsJoined rest

/-- What may follow in a region if each return stands in front of a line end. -/
def expects : Region → Text → Prop
  | .literalReturn, _ => False
  | .brokenComment, text => text.head? = some '\n'
  | .character, text => text.head? ≠ some '\r'
  | _, _ => True

/-- Where no lexeme goes on, anything may follow a character, apart from a return behind a
backslash. -/
theorem expects_opened {c : Char} {rest : Text} (escape : c = '\\' → rest.head? ≠ some '\r') :
    (opened c).expects rest := by
  unfold opened
  repeat' split
  all_goals first | trivial | exact escape (by assumption)

/-- Within an atom anything may follow a character, apart from a return behind a backslash. -/
theorem expects_ofAtom {c : Char} {rest : Text} (escape : c = '\\' → rest.head? ≠ some '\r') :
    (ofAtom c).expects rest := by
  unfold ofAtom
  split
  · exact expects_opened escape
  · trivial

/-- The readings of a text with either of the usual line ends do not part. By induction on the text:
each region has a next one, whose expectation the rest of the text meets. -/
theorem agrees_of_returnsJoined {region : Region} {text : Text} (joined : returnsJoined text = true)
    (expected : region.expects text) : region.agrees text = true := by
  induction text generalizing region with
  | nil => cases region <;> rfl
  | cons c rest inductionHypothesis =>
    simp only [returnsJoined, Bool.and_eq_true, Bool.or_eq_true, decide_eq_true_eq] at joined
    obtain ⟨⟨lineEnd, escaped⟩, later⟩ := joined
    have escape (backslash : c = '\\') : rest.head? ≠ some '\r' :=
      escaped.resolve_left fun other => other backslash
    rw [agrees_cons]
    suffices ∃ after, region.next? c = some after ∧ after.expects rest by
      obtain ⟨after, next, fits⟩ := this
      exact ⟨after, next, inductionHypothesis later fits⟩
    cases region with
    | between => exact ⟨_, rfl, expects_opened escape⟩
    | atom => exact ⟨_, rfl, expects_ofAtom escape⟩
    | hash =>
      refine ⟨_, rfl, ?_⟩
      split
      · trivial
      · exact expects_ofAtom escape
    | character =>
      have notReturn : c ≠ '\r' := by simpa [expects] using expected
      exact ⟨.atom, by simp [next?, notReturn], trivial⟩
    | literalReturn => exact absurd expected id
    | string =>
      refine ⟨_, rfl, ?_⟩
      split
      · trivial
      · split <;> trivial
    | escape => exact ⟨_, rfl, trivial⟩
    | comment =>
      refine ⟨_, rfl, ?_⟩
      split
      · trivial
      · split
        · rename_i isReturn
          exact lineEnd.resolve_left fun other => other isReturn
        · trivial
    | brokenComment =>
      obtain rfl : c = '\n' := by simpa [expects] using expected
      exact ⟨_, rfl, trivial⟩

end Region

section Lines

/-- No return at the end of one text meets a line end at the start of the other. -/
def LinesApart (first second : Text) : Prop :=
  first.getLast? ≠ some '\r' ∨ second.head? ≠ some '\n'

/-- A character of the second reading. -/
def lineChar (c : Char) : Char := if c = '\r' then '\n' else c

/-- The second reading changes no character but the return. -/
theorem lineChar_of_ne {c : Char} (other : c ≠ '\r') : lineChar c = c := if_neg other

/-- A character is read by itself unless it is a return that a line end follows. -/
theorem unixLines_cons {c : Char} {rest : Text} (apart : c ≠ '\r' ∨ rest.head? ≠ some '\n') :
    unixLines (c :: rest) = lineChar c :: unixLines rest := by
  rw [unixLines]
  · rfl
  · rintro more rfl rfl
    simp at apart

/-- Whether lines are apart depends on the last character of the first text, so that its first one
may go. -/
theorem LinesApart.tail {c : Char} {first second : Text} (apart : LinesApart (c :: first) second) :
    LinesApart first second := by
  cases first with
  | nil => exact .inl (by simp)
  | cons d first => simpa [LinesApart, List.getLast?_cons_cons] using apart

/-- Texts whose lines are apart are read one after the other. By induction along the first text;
only a carriage return at its end could be joined with what follows. -/
theorem unixLines_append {first second : Text} (apart : LinesApart first second) :
    unixLines (first ++ second) = unixLines first ++ unixLines second := by
  fun_induction unixLines first with
  | case1 => rfl
  | case2 rest inductionHypothesis =>
    exact congrArg ('\n' :: ·) (inductionHypothesis apart.tail.tail)
  | case3 c rest other inductionHypothesis =>
    have here : c ≠ '\r' ∨ (rest ++ second).head? ≠ some '\n' := by
      cases rest with
      | nil => simpa [LinesApart] using apart
      | cons d rest =>
        by_cases lineEnd : d = '\n'
        · exact .inl fun isReturn => other rest isReturn (by rw [lineEnd])
        · exact .inr (by simpa using lineEnd)
    rw [List.cons_append, unixLines_cons here, inductionHypothesis apart.tail]
    rfl

/-- A text without returns is the same for both readings. -/
@[simp] theorem unixLines_of_not_mem {text : Text} (absent : '\r' ∉ text) :
    unixLines text = text := by
  induction text with
  | nil => rfl
  | cons c rest inductionHypothesis =>
    simp only [List.mem_cons, not_or] at absent
    have other : c ≠ '\r' := fun same => absent.1 same.symm
    rw [unixLines_cons (.inl other), lineChar_of_ne other, inductionHypothesis absent.2]

/-- The second reading of a text starts with the first character as it is read. -/
theorem head?_unixLines (text : Text) : (unixLines text).head? = text.head?.map lineChar := by
  fun_induction unixLines text with
  | case1 => rfl
  | case2 => rfl
  | case3 => rfl

/-- Of the characters that start a text the return alone is read in another way. -/
theorem head?_unixLines_eq_iff {text : Text} {c : Char} (notReturn : c ≠ '\r')
    (notLineEnd : c ≠ '\n') : (unixLines text).head? = some c ↔ text.head? = some c := by
  rw [head?_unixLines, Option.map_eq_some_iff]
  constructor
  · rintro ⟨d, first, same⟩
    unfold lineChar at same
    split at same
    · exact absurd same.symm notLineEnd
    · rwa [← same]
  · intro first
    exact ⟨c, first, lineChar_of_ne notReturn⟩

/-- What ends an atom does so for both readings. -/
theorem delimited_unixLines {rest : Text} (ended : Delimited rest) :
    Delimited (unixLines rest) := by
  intro c first
  rw [head?_unixLines] at first
  obtain ⟨d, head, rfl⟩ := Option.map_eq_some_iff.mp first
  unfold lineChar
  split
  · decide
  · exact ended d head

/-- Lines are apart where the second text starts with no line end. -/
theorem linesApart_of_starts {first second : Text} (starts : StartsLexeme second) :
    LinesApart first second := by
  obtain ⟨c, rest, rfl, notSpace, -⟩ := starts
  refine .inr fun lineEnd => ?_
  obtain rfl := Option.some.inj lineEnd
  exact absurd notSpace (by decide)

/-- Lines that are apart from a text are apart from what it starts with. -/
theorem LinesApart.of_append {first second third : Text}
    (apart : LinesApart first (second ++ third)) : LinesApart first second := by
  cases second with
  | nil => exact .inr (by simp)
  | cons c second => exact apart

/-- What stands in front of a text does not bring its last line nearer to the next text. -/
theorem LinesApart.append {second third : Text} (apart : LinesApart second third)
    (nonempty : second ≠ []) (first : Text) : LinesApart (first ++ second) third := by
  obtain ⟨c, rest, rfl⟩ := List.exists_cons_of_ne_nil nonempty
  simpa [LinesApart, List.getLast?_append, List.getLast?_cons] using apart

end Lines

section Layout

/-- A comment may hold one more character that does not end it. -/
theorem Layout.comment_cons {c : Char} {text : Text} (other : c ≠ '\n')
    (layout : Layout (';' :: text)) : Layout (';' :: c :: text) := by
  cases layout with
  | space _ _ blank => exact absurd blank (by decide)
  | comment body rest oneLine tail =>
    refine .comment (c :: body) rest ?_ tail
    simp only [List.mem_cons, not_or]
    exact ⟨fun same => other same.symm, oneLine⟩

/-- Space in front of layout stays so, also where it joins a line end. -/
theorem layout_unixLines_space {c : Char} {rest : Text} (blank : isSpace c = true)
    (layout : Layout (unixLines rest)) : Layout (unixLines (c :: rest)) := by
  by_cases joins : c = '\r' ∧ rest.head? = some '\n'
  · obtain ⟨rfl, lineEnd⟩ := joins
    obtain ⟨more, rfl⟩ := List.head?_eq_some_iff.mp lineEnd
    exact layout
  · rw [unixLines_cons (Decidable.not_and_iff_not_or_not.mp joins)]
    refine .space _ _ ?_ layout
    unfold lineChar
    split
    · decide
    · exact blank

/-- Where the readings of a comment do not part, it is layout for both, up to the end of its line.
The second statement is about what is left of it behind a return. -/
theorem layout_unixLines_comment {body : Text} (oneLine : '\n' ∉ body) (rest : Text) :
    (Region.comment.agrees (body ++ '\n' :: rest) = true →
      Region.between.agrees rest = true ∧ Layout (';' :: unixLines (body ++ ['\n']))) ∧
    (Region.brokenComment.agrees (body ++ '\n' :: rest) = true →
      Region.between.agrees rest = true ∧ Layout (unixLines (body ++ ['\n']))) := by
  induction body with
  | nil => exact ⟨fun alike => ⟨alike, .comment [] [] (by simp) .empty⟩,
      fun alike => ⟨alike, .space '\n' [] (by decide) .empty⟩⟩
  | cons c body inductionHypothesis =>
    simp only [List.mem_cons, not_or] at oneLine
    have notEnd : c ≠ '\n' := fun same => oneLine.1 same.symm
    obtain ⟨goesOn, broken⟩ := inductionHypothesis oneLine.2
    constructor
    · intro alike
      by_cases isReturn : c = '\r'
      · subst isReturn
        obtain ⟨later, layout⟩ := broken alike
        refine ⟨later, ?_⟩
        cases body with
        | nil => exact .comment [] [] (by simp) .empty
        | cons d body =>
          simp only [List.mem_cons, not_or] at oneLine
          have apart : (d :: body ++ ['\n']).head? ≠ some '\n' := by
            simpa using Ne.symm oneLine.2.1
          rw [List.cons_append, unixLines_cons (.inr apart)]
          exact .comment [] _ (by simp) layout
      · have next : Region.comment.next? c = some .comment := by
          simp [Region.next?, notEnd, isReturn]
        obtain ⟨later, layout⟩ := goesOn ((Region.agrees_cons_of_next next).mp alike)
        rw [List.cons_append, unixLines_cons (.inl isReturn), lineChar_of_ne isReturn]
        exact ⟨later, layout.comment_cons notEnd⟩
    · intro alike
      obtain ⟨after, next, alikeLater⟩ := Region.agrees_cons.mp alike
      simp only [Region.next?, notEnd, if_false] at next
      split at next
      · rename_i comment
        subst comment
        obtain rfl := Option.some.inj next
        exact goesOn alikeLater
      · split at next
        · rename_i blank
          obtain rfl := Option.some.inj next
          obtain ⟨later, layout⟩ := broken alikeLater
          exact ⟨later, layout_unixLines_space blank layout⟩
        · simp at next

/-- Space opens no lexeme. -/
theorem Region.opened_of_isSpace {c : Char} (blank : isSpace c = true) :
    Region.opened c = .between := by
  simp only [isSpace, Bool.or_eq_true, decide_eq_true_eq] at blank
  rcases blank with (((rfl | rfl) | rfl) | rfl) | rfl <;> decide

/-- Where the readings of layout do not part, it is layout for both. By induction on the layout,
with a lemma for a space and one for a comment. -/
theorem Layout.unixLines {lead : Text} (layout : Layout lead) {rest : Text}
    (alike : Region.between.agrees (lead ++ rest) = true) :
    Region.between.agrees rest = true ∧ Layout (unixLines lead) := by
  induction layout with
  | empty => exact ⟨alike, .empty⟩
  | space c tail blank _ inductionHypothesis =>
    have next : Region.between.next? c = some .between := by
      rw [Region.next?, Region.opened_of_isSpace blank]
    obtain ⟨later, inner⟩ := inductionHypothesis ((Region.agrees_cons_of_next next).mp alike)
    exact ⟨later, layout_unixLines_space blank inner⟩
  | comment body tail oneLine _ inductionHypothesis =>
    have behind : Region.comment.agrees (body ++ '\n' :: (tail ++ rest)) = true := by
      simpa [Region.agrees_cons, Region.next?, Region.opened] using alike
    obtain ⟨later, line⟩ := (layout_unixLines_comment oneLine (tail ++ rest)).1 behind
    obtain ⟨last, inner⟩ := inductionHypothesis later
    have split : Relocate.unixLines (';' :: (body ++ '\n' :: tail)) =
        (';' :: Relocate.unixLines (body ++ ['\n'])) ++ Relocate.unixLines tail := by
      have text : ';' :: (body ++ '\n' :: tail) = (';' :: (body ++ ['\n'])) ++ tail := by simp
      rw [text, unixLines_append (.inl (by simp [List.getLast?_cons])),
        unixLines_cons (.inl (by decide))]
      rfl
    rw [split]
    exact ⟨last, line.append inner⟩

end Layout

/-- What stands behind the opening quote of a string, up to the closing one. -/
inductive StringTail : Text → Prop where
  | closing : StringTail ['"']
  | escaped (c : Char) (rest : Text) (tail : StringTail rest) : StringTail ('\\' :: c :: rest)
  | plain (c : Char) (rest : Text) (notQuote : c ≠ '"') (notEscape : c ≠ '\\')
      (tail : StringTail rest) : StringTail (c :: rest)

section StringTail

/-- A string that is scanned to its end has the shape of one. By recursion on the scan: each of its
cases is one of the shape. -/
theorem stringTail_of_scanString {body value : Text}
    (closed : scanString body = some (value, body.length)) : StringTail body := by
  fun_induction scanString body generalizing value with
  | case1 => simp at closed
  | case2 tail =>
    obtain rfl : tail = [] := by simpa using (congrArg (Option.map Prod.snd) closed).symm
    exact .closing
  | case3 c tail inductionHypothesis =>
    obtain ⟨⟨inner, length⟩, found, same⟩ := Option.map_eq_some_iff.mp closed
    simp only [List.length_cons, Prod.mk.injEq] at same
    obtain rfl : length = tail.length := by omega
    exact .escaped c tail (inductionHypothesis found)
  | case4 c tail notQuote notEscape inductionHypothesis =>
    obtain ⟨⟨inner, length⟩, found, same⟩ := Option.map_eq_some_iff.mp closed
    simp only [List.length_cons, Prod.mk.injEq] at same
    obtain rfl : length = tail.length := by omega
    exact .plain c tail notQuote (not_backslash_of_closed found notEscape)
      (inductionHypothesis found)

/-- A text of the shape of a string is scanned to its end. -/
theorem StringTail.closed {body : Text} (tail : StringTail body) :
    ∃ value, scanString body = some (value, body.length) := by
  induction tail with
  | closing => exact ⟨[], rfl⟩
  | escaped c rest _ inductionHypothesis =>
    obtain ⟨value, found⟩ := inductionHypothesis
    exact ⟨c :: value, by simp [scanString, found]⟩
  | plain c rest notQuote notEscape _ inductionHypothesis =>
    obtain ⟨value, found⟩ := inductionHypothesis
    refine ⟨c :: value, ?_⟩
    rw [scanString_plain notQuote notEscape, found]
    rfl

/-- A string ends in a quote. -/
theorem StringTail.getLast? {body : Text} (tail : StringTail body) : body.getLast? = some '"' := by
  induction tail with
  | closing => rfl
  | escaped c rest _ inductionHypothesis => simp [List.getLast?_cons, inductionHypothesis]
  | plain c rest _ _ _ inductionHypothesis => simp [List.getLast?_cons, inductionHypothesis]

/-- The readings do not part in a string. -/
theorem StringTail.agrees {body rest : Text} (tail : StringTail body)
    (alike : Region.string.agrees (body ++ rest) = true) : Region.between.agrees rest = true := by
  induction tail with
  | closing => exact alike
  | escaped c body _ inductionHypothesis =>
    refine inductionHypothesis ?_
    simpa [Region.agrees_cons, Region.next?] using alike
  | plain c body notQuote notEscape _ inductionHypothesis =>
    refine inductionHypothesis ?_
    simpa [Region.agrees_cons, Region.next?, notQuote, notEscape] using alike

/-- A string is one for both readings. By induction on the string. A carriage return that is joined
with its line end leaves a plain or an escaped line end. -/
theorem StringTail.unixLines {body : Text} (tail : StringTail body) :
    StringTail (unixLines body) := by
  induction tail with
  | closing => exact .closing
  | escaped c rest _ inductionHypothesis =>
    rw [unixLines_cons (.inl (by decide))]
    by_cases joins : c = '\r' ∧ rest.head? = some '\n'
    · -- The line end that was a character of its own is now the escaped one.
      obtain ⟨rfl, lineEnd⟩ := joins
      obtain ⟨more, rfl⟩ := List.head?_eq_some_iff.mp lineEnd
      rw [unixLines_cons (.inl (by decide))] at inductionHypothesis
      cases inductionHypothesis with
      | plain _ _ _ _ inner => exact .escaped '\n' _ inner
    · rw [unixLines_cons (Decidable.not_and_iff_not_or_not.mp joins)]
      exact .escaped _ _ inductionHypothesis
  | plain c rest notQuote notEscape _ inductionHypothesis =>
    by_cases joins : c = '\r' ∧ rest.head? = some '\n'
    · obtain ⟨rfl, lineEnd⟩ := joins
      obtain ⟨more, rfl⟩ := List.head?_eq_some_iff.mp lineEnd
      exact inductionHypothesis
    · rw [unixLines_cons (Decidable.not_and_iff_not_or_not.mp joins)]
      unfold lineChar
      split
      · exact .plain '\n' _ (by decide) (by decide) inductionHypothesis
      · exact .plain c _ notQuote notEscape inductionHypothesis

end StringTail

namespace Form

mutual

/-- The form without what its strings and literals hold. -/
def outline : Form → Form
  | .string _ _ => .string [] []
  | .token _ => .token []
  | .seq bracket items => .seq bracket (outlineAll items)
  | .annotated note target => .annotated note.outline target.outline
  | .marked mark gap target => .marked mark gap target.outline
  | form => form

def outlineAll : List Form → List Form
  | [] => []
  | form :: forms => form.outline :: outlineAll forms

end

end Form

section Lexemes

/-- A return ends an atom, so that no run of atom characters has one. -/
theorem return_not_mem_of_isRun {run : Text} (shape : isRun run = true) : '\r' ∉ run := by
  intro member
  have terminator := List.all_eq_true.mp shape '\r' member
  exact absurd terminator (by decide)

/-- A character that starts an atom opens one. -/
theorem Region.opened_of_isAtomStart {c : Char} (starts : isAtomStart c = true) :
    Region.opened c = .atom := by
  have terminator := isTerminator_of_isAtomStart starts
  simp only [isTerminator, Bool.or_eq_false_iff, decide_eq_false_iff_not] at terminator
  have other := starts
  simp only [isAtomStart, Bool.and_eq_true, decide_eq_true_eq] at other
  simp [Region.opened, starts, terminator, other]

/-- A run of atom characters holds no return at its end. -/
theorem linesApart_of_isRun {run : Text} (shape : isRun run = true) (rest : Text) :
    LinesApart run rest := by
  refine .inl fun last => return_not_mem_of_isRun shape ?_
  exact List.mem_of_getLast? last

/-- A mark is one for both readings. By cases on the mark: its characters are no line ends, and of
what follows it only the first character counts. -/
theorem Written.mark_unixLines {mark gap own rest : Text}
    (written : Written (.mark mark gap) own rest)
    (alike : Region.between.agrees (own ++ rest) = true) :
    Region.between.agrees rest = true ∧ '\r' ∉ own ∧
      Written (.mark mark gap) own (unixLines rest) := by
  cases written with
  | quote c _ known =>
    rcases known with rfl | rfl | rfl
    · exact ⟨alike, by decide, .quote _ _ (by decide)⟩
    · exact ⟨alike, by decide, .quote _ _ (by decide)⟩
    · exact ⟨alike, by decide, .quote _ _ (by decide)⟩
  | unquote _ single =>
    refine ⟨alike, by decide, .unquote _ fun splice => single ?_⟩
    exact (head?_unixLines_eq_iff (by decide) (by decide)).mp splice
  | splice => exact ⟨alike, by decide, .splice _⟩
  | hashed c _ known =>
    rcases known with rfl | rfl
    · exact ⟨alike, by decide, .hashed _ _ (by decide)⟩
    · exact ⟨alike, by decide, .hashed _ _ (by decide)⟩
  | conditional _ single =>
    refine ⟨alike, by decide, .conditional _ fun splice => single ?_⟩
    exact (head?_unixLines_eq_iff (by decide) (by decide)).mp splice
  | conditionalSplice => exact ⟨alike, by decide, .conditionalSplice _⟩
  | function _ applied =>
    obtain ⟨more, rfl⟩ := List.head?_eq_some_iff.mp applied
    refine ⟨alike, by decide, .function _ ?_⟩
    exact (head?_unixLines_eq_iff (by decide) (by decide)).mpr rfl
  | tag tag _ shape ended =>
    cases tag with
    | nil => simp [isTag] at shape
    | cons c run =>
      have parts := shape
      simp only [isTag, Bool.and_eq_true, decide_eq_true_eq] at parts
      have all := parts.2
      simp only [isRun, List.all_cons, Bool.and_eq_true, Bool.not_eq_true'] at all
      have next : Region.hash.next? c = some .atom := by
        simp [Region.next?, Region.ofAtom, parts.1, all.1]
      have later := (Region.agrees_cons_of_next next).mp alike
      refine ⟨Region.agrees_run (.inl rfl) all.2 ended later, ?_,
        .tag _ _ shape (delimited_unixLines ended)⟩
      have absent := return_not_mem_of_isRun parts.2
      simpa using absent

/-- A form without parts is one for both readings, up to what it holds. By cases on how it is
written. Atoms have no line ends; strings and literals may hold others afterwards. -/
theorem Written.leaf_unixLines {form : Form} {own rest : Text}
    (written : Written (.leaf form) own rest)
    (alike : Region.between.agrees (own ++ rest) = true) :
    Region.between.agrees rest = true ∧ LinesApart own rest ∧
      ∃ other : Form, Written (.leaf other) (unixLines own) (unixLines rest) ∧
        other.outline = form.outline := by
  cases written with
  | atom _ _ shape ended =>
    have whole := isRun_of_isAtom shape
    have later : Region.between.agrees rest = true := by
      cases own with
      | nil => simp [isAtom] at shape
      | cons c run =>
        simp only [isAtom, Bool.and_eq_true] at shape
        have next : Region.between.next? c = some .atom := by
          rw [Region.next?, Region.opened_of_isAtomStart shape.1]
        exact Region.agrees_run (.inl rfl) shape.2 ended
          ((Region.agrees_cons_of_next next).mp alike)
    refine ⟨later, linesApart_of_isRun whole rest, _, ?_, rfl⟩
    simpa [return_not_mem_of_isRun whole] using .atom own _ shape (delimited_unixLines ended)
  | string body value _ closed =>
    have tail := stringTail_of_scanString closed
    obtain ⟨other, again⟩ := tail.unixLines.closed
    refine ⟨tail.agrees alike, .inl (by simp [List.getLast?_cons, tail.getLast?]), ?_⟩
    rw [unixLines_cons (.inl (by decide))]
    exact ⟨_, .string _ other _ again, rfl⟩
  | pattern body value _ closed =>
    have tail := stringTail_of_scanString closed
    obtain ⟨other, again⟩ := tail.unixLines.closed
    refine ⟨tail.agrees alike, .inl (by simp [List.getLast?_cons, tail.getLast?]), ?_⟩
    rw [unixLines_cons (.inl (by decide)), unixLines_cons (.inl (by decide))]
    exact ⟨_, .pattern _ other _ again, rfl⟩
  | character c run _ shape ended =>
    have behind : Region.character.agrees (c :: (run ++ rest)) = true := alike
    have noEnd : run.head? ≠ some '\n' := by
      intro lineEnd
      obtain ⟨more, rfl⟩ := List.head?_eq_some_iff.mp lineEnd
      simp [isRun, isTerminator, isSpace] at shape
    refine ⟨?_, ?_, .token ('\\' :: lineChar c :: run), ?_, rfl⟩
    · by_cases isReturn : c = '\r'
      · subst isReturn
        exact Region.agrees_run (.inr rfl) shape ended behind
      · have next : Region.character.next? c = some .atom := by simp [Region.next?, isReturn]
        exact Region.agrees_run (.inl rfl) shape ended
          ((Region.agrees_cons_of_next next).mp behind)
    · cases run with
      | nil =>
        by_cases isReturn : c = '\r'
        · subst isReturn
          refine .inr fun lineEnd => ?_
          obtain ⟨more, rfl⟩ := List.head?_eq_some_iff.mp lineEnd
          exact absurd behind (by simp [Region.agrees, Region.next?])
        · exact .inl (by simpa using isReturn)
      | cons d run => exact (linesApart_of_isRun shape rest).append (by simp) ['\\', c]
    · rw [unixLines_cons (.inl (by decide)), unixLines_cons (.inr noEnd),
        unixLines_of_not_mem (return_not_mem_of_isRun shape)]
      exact .character (lineChar c) run _ shape (delimited_unixLines ended)
  | backslash => exact ⟨rfl, .inr (by simp), _, .backslash, rfl⟩

end Lexemes

/-- The readings do not part at an opening bracket. -/
theorem Region.agrees_opening (bracket : Bracket) (rest : Text) :
    Region.between.agrees (bracket.opening ++ rest) = Region.between.agrees rest := by
  cases bracket <;> rfl

/-- A closing bracket leaves the readings where they are. -/
theorem Region.agrees_closing (bracket : Bracket) (rest : Text) :
    Region.between.agrees (bracket.closing :: rest) = Region.between.agrees rest := by
  cases bracket <;> rfl

/-- A closing bracket is a lexeme of its own and no layout. -/
theorem startsLexeme_closing (bracket : Bracket) (rest : Text) :
    StartsLexeme (bracket.closing :: rest) := by
  cases bracket <;> exact ⟨_, _, rfl, by decide, by decide⟩

/-- The brackets of a sequence are the same for both readings. -/
theorem unixLines_bracketed (bracket : Bracket) (body : Text) :
    unixLines (bracket.opening ++ (body ++ [bracket.closing])) =
      bracket.opening ++ (unixLines body ++ [bracket.closing]) := by
  have opens : '\r' ∉ bracket.opening := by cases bracket <;> decide
  have closes : '\r' ∉ [bracket.closing] := by cases bracket <;> decide
  have apart : LinesApart bracket.opening (body ++ [bracket.closing]) :=
    .inl fun last => opens (List.mem_of_getLast? last)
  simp [unixLines_append apart, unixLines_append (linesApart_of_starts (startsLexeme_closing _ _)),
    opens, closes]

mutual

/-- Where the readings of a form do not part, both find the form, up to what strings and literals in
it hold. -/
theorem Spelling.unixLines {form : Form} {own rest : Text} (spelled : Spelling form own rest)
    (alike : Region.between.agrees (own ++ rest) = true) :
    Region.between.agrees rest = true ∧ LinesApart own rest ∧
      ∃ other : Form, Spelling other (unixLines own) (unixLines rest) ∧
        other.outline = form.outline := by
  match spelled with
  | .leaf _ _ _ written =>
    obtain ⟨later, apart, other, again, same⟩ := written.leaf_unixLines alike
    exact ⟨later, apart, other, .leaf _ _ _ again, same⟩
  | .seq bracket items body _ inside =>
    have text : bracket.opening ++ (body ++ [bracket.closing]) ++ rest =
        bracket.opening ++ (body ++ bracket.closing :: rest) := by simp
    rw [text, Region.agrees_opening] at alike
    obtain ⟨later, others, again, same⟩ :=
      inside.unixLines (startsLexeme_closing bracket rest) alike
    rw [Region.agrees_closing] at later
    have notReturn : bracket.closing ≠ '\r' := by cases bracket <;> decide
    rw [unixLines_cons (.inl notReturn), lineChar_of_ne notReturn] at again
    refine ⟨later, .inl (by simpa [← List.append_assoc] using notReturn), .seq bracket others, ?_,
      by simp [Form.outline, same]⟩
    rw [unixLines_bracketed]
    exact .seq bracket others _ _ again
  | .annotated note target lead first gap second _ leading noted between spelledTarget =>
    have text : '^' :: (lead ++ (first ++ (gap ++ second))) ++ rest =
        '^' :: (lead ++ (first ++ (gap ++ (second ++ rest)))) := by simp
    rw [text, Region.agrees_cons_of_next rfl] at alike
    obtain ⟨alikeNote, layout⟩ := leading.unixLines alike
    obtain ⟨alikeGap, apartNote, otherNote, notedAgain, sameNote⟩ := noted.unixLines alikeNote
    obtain ⟨alikeTarget, layoutGap⟩ := between.unixLines alikeGap
    obtain ⟨later, apart, otherTarget, again, sameTarget⟩ := spelledTarget.unixLines alikeTarget
    have starts := spelledTarget.starts
    have nonempty : second ≠ [] := by
      obtain ⟨c, run, rfl, -⟩ := starts
      simp
    rw [← List.append_assoc] at apartNote
    rw [unixLines_append (linesApart_of_starts (starts.append rest)), unixLines_append apart]
      at notedAgain
    refine ⟨later, ?_, .annotated otherNote otherTarget, ?_, by
      simp [Form.outline, sameNote, sameTarget]⟩
    · simpa using apart.append nonempty ('^' :: (lead ++ (first ++ gap)))
    · rw [unixLines_cons (.inl (by decide)),
        unixLines_append (linesApart_of_starts (noted.starts.append _)),
        unixLines_append apartNote.of_append, unixLines_append (linesApart_of_starts starts)]
      exact .annotated _ _ _ _ _ _ _ layout notedAgain layoutGap again
  | .marked mark gap target own lead first _ written between spelledTarget =>
    rw [List.append_assoc, List.append_assoc] at alike
    obtain ⟨alikeGap, absent, writtenAgain⟩ := written.mark_unixLines alike
    obtain ⟨alikeTarget, layout⟩ := between.unixLines alikeGap
    obtain ⟨later, apart, other, again, same⟩ := spelledTarget.unixLines alikeTarget
    have starts := spelledTarget.starts
    have nonempty : first ≠ [] := by
      obtain ⟨c, run, rfl, -⟩ := starts
      simp
    rw [unixLines_append (linesApart_of_starts (starts.append rest)), unixLines_append apart]
      at writtenAgain
    have apartMark : LinesApart own (lead ++ first) :=
      .inl fun last => absent (List.mem_of_getLast? last)
    refine ⟨later, ?_, .marked mark gap other, ?_, by simp [Form.outline, same]⟩
    · rw [← List.append_assoc]
      exact apart.append nonempty (own ++ lead)
    · simpa [unixLines_append apartMark, unixLines_append (linesApart_of_starts starts), absent]
        using .marked _ _ _ _ _ _ _ writtenAgain layout again

/-- Where the readings of items do not part, both find the items. By recursion on the items: layout,
the first of them and the others are apart, so that each is read on its own. -/
theorem Items.unixLines {items : List Form} {body rest : Text} (inside : Items items body rest)
    (starts : StartsLexeme rest) (alike : Region.between.agrees (body ++ rest) = true) :
    Region.between.agrees rest = true ∧
      ∃ others : List Form, Items others (unixLines body) (unixLines rest) ∧
        Form.outlineAll others = Form.outlineAll items := by
  match inside with
  | .none lead _ layout =>
    obtain ⟨later, again⟩ := layout.unixLines alike
    exact ⟨later, [], .none _ _ again, rfl⟩
  | .some form forms lead own more _ layout spelled others =>
    rw [List.append_assoc, List.append_assoc] at alike
    obtain ⟨alikeForm, layoutAgain⟩ := layout.unixLines alike
    obtain ⟨alikeOthers, apart, other, again, same⟩ := spelled.unixLines alikeForm
    obtain ⟨later, otherForms, itemsAgain, sameForms⟩ := others.unixLines starts alikeOthers
    rw [unixLines_append (linesApart_of_starts starts)] at again
    refine ⟨later, other :: otherForms, ?_, by simp [Form.outlineAll, same, sameForms]⟩
    rw [unixLines_append (linesApart_of_starts (spelled.starts.append more)),
      unixLines_append apart.of_append]
    exact .some _ _ _ _ _ _ layoutAgain again itemsAgain

end

end Relocate
