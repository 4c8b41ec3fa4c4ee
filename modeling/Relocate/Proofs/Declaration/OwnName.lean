import Relocate.Proofs.Declaration.Codec

/-!
# The name in a declaration, and putting another one in its place

`nameOffset?` finds where the name stands in the declaration of a text. Another symbol in this place
gives a text with the same declaration but for the name, `parse_renamed`. A renamed file gets its
new name at the first occurrence of the old one, wherever that is; this is the place of the name
unless the old name occurs before it, `parse_replaceFirst`.
-/
namespace Relocate

/-- Passes over layout and metadata. The first argument bounds the notes. -/
def skipNotes : Nat → Cursor → Cursor
  | 0, cursor => cursor.skipLayout
  | fuel + 1, cursor =>
    let here := cursor.skipLayout
    if here.rest.head? = some '^' then
      match readForm (here.advance 1) with
      | .ok (_, after) => skipNotes fuel after
      | .error _ => here
    else here

/-- Where the name of a declaration stands that starts at a place: behind the notes in front of the
declaration, its bracket, its head and the notes of the name. -/
def nameOffsetFrom (fuel : Nat) (cursor : Cursor) : Option Nat :=
  match readForm ((skipNotes fuel cursor).advance 1) with
  | .ok (_, after) => some (skipNotes fuel after).offset
  | .error _ => none

/-- Where the name stands in the declaration of a text. -/
def nameOffset? (text : Text) : Option Nat :=
  ((readForms text).1.find? isDeclaration).bind fun spanned =>
    nameOffsetFrom text.length (.ofText text spanned.start)

/-- The text has the name at an offset before the given one. -/
def occursBefore (name : Text) (offset : Nat) (text : Text) : Bool :=
  (List.range offset).any fun start => Text.startsWith name (text.drop start)

section Notes

variable {form : Form} {own rest lead : Text}

/-- Only metadata starts with a caret. -/
theorem Spelling.annotated_of_caret (spelled : Spelling form own rest)
    (caret : own.head? = some '^') : ∃ note target, form = .annotated note target := by
  cases spelled with
  | leaf _ _ _ written =>
    cases written with
    | atom _ _ shape =>
      cases own with
      | nil => simp at caret
      | cons c run =>
        obtain rfl : c = '^' := by simpa using caret
        simp only [isAtom, Bool.and_eq_true] at shape
        exact absurd shape.1 (by decide)
    | _ => simp at caret
  | seq bracket items body => cases bracket <;> simp [Bracket.opening] at caret
  | annotated note target => exact ⟨note, target, rfl⟩
  | marked mark gap target own lead first _ written =>
    cases written with
    | quote c _ known => rcases known with rfl | rfl | rfl <;> simp at caret
    | _ => simp at caret

/-- Layout in front of a form is passed before its metadata is looked for. -/
theorem skipNotes_layout (layout : Layout lead) (fuel offset : Nat) (text : Text) :
    skipNotes fuel ⟨0, offset, lead ++ text⟩ = skipNotes fuel ⟨0, offset + lead.length, text⟩ := by
  have skipped : Cursor.skipLayout ⟨0, offset, lead ++ text⟩ =
      Cursor.skipLayout ⟨0, offset + lead.length, text⟩ := skipLayout_layout layout offset text
  cases fuel with
  | zero => exact skipped
  | succ fuel => rw [skipNotes, skipNotes, skipped]

/-- Where a form without metadata stands, there is nothing to pass over. -/
theorem skipNotes_plain (spelled : Spelling form own rest)
    (bare : form.stripNotes = (form, [])) (fuel offset : Nat) :
    skipNotes fuel ⟨0, offset, own ++ rest⟩ = ⟨0, offset, own ++ rest⟩ := by
  have here : Cursor.skipLayout ⟨0, offset, own ++ rest⟩ = ⟨0, offset, own ++ rest⟩ :=
    skipLayout_lexeme (spelled.starts.append rest) offset
  cases fuel with
  | zero => exact here
  | succ fuel =>
    have noCaret : (own ++ rest).head? ≠ some '^' := by
      intro caret
      obtain ⟨c, run, rfl, -⟩ := spelled.starts
      obtain ⟨note, target, rfl⟩ := spelled.annotated_of_caret caret
      simp [Form.stripNotes] at bare
    rw [skipNotes, here, if_neg noCaret]

/-- A form stands behind its metadata, which passing over notes passes over, and another form may
take its place there if it ends what stands in front of it no less. -/
theorem Spelling.behind_notes : {form : Form} → {own rest : Text} → Spelling form own rest →
    ∃ lead inner, own = lead ++ inner ∧ Spelling form.stripNotes.1 inner rest ∧
      (∀ fuel offset, own.length ≤ fuel →
        skipNotes fuel ⟨0, offset, own ++ rest⟩ = ⟨0, offset + lead.length, inner ++ rest⟩) ∧
      ∀ target other more, Spelling target other more →
        (Delimited (inner ++ rest) → Delimited (other ++ more)) →
        Spelling (Form.annotate form.stripNotes.2 target) (lead ++ other) more
  | .annotated note target, own, rest, spelled => by
    obtain ⟨lead, first, gap, second, rfl, leading, noted, between, spelledTarget⟩ :=
      spelled.annotated_inv
    obtain ⟨inside, inner, rfl, bare, skips, replaces⟩ := spelledTarget.behind_notes
    refine ⟨'^' :: (lead ++ (first ++ (gap ++ inside))), inner, by simp, bare, ?_, ?_⟩
    · intro fuel offset enough
      obtain _ | fuel := fuel
      · simp at enough
      have here : Cursor.skipLayout ⟨0, offset,
          '^' :: (lead ++ (first ++ (gap ++ (inside ++ inner)))) ++ rest⟩ =
          ⟨0, offset, '^' :: (lead ++ (first ++ (gap ++ (inside ++ inner)))) ++ rest⟩ :=
        skipLayout_lexeme (spelled.starts.append rest) offset
      have ends : note.overhang = 0 := by
        obtain ⟨c, run, same, -⟩ := spelledTarget.starts
        exact noted.overhang (by simp [same])
      have read : readForm (Cursor.advance ⟨0, offset,
          '^' :: (lead ++ (first ++ (gap ++ (inside ++ inner)))) ++ rest⟩ 1) =
          .ok (note, ⟨0, offset + 1 + lead.length + first.length,
            gap ++ ((inside ++ inner) ++ rest)⟩) := by
        apply readForm_ok_iff.mpr
        exact ⟨lead, first, _, by simp, leading, noted, by simp [ends]⟩
      rw [skipNotes, here]
      simp only [List.cons_append, List.head?_cons, if_true]
      rw [List.cons_append] at read
      rw [read]
      simp only
      rw [skipNotes_layout between, skips]
      · simp only [List.length_cons, List.length_append, Cursor.mk.injEq, true_and, and_true]
        omega
      · simp only [List.length_cons, List.length_append] at enough ⊢
        omega
    · intro replacement other more spelledOther delimits
      have later := replaces replacement other more spelledOther delimits
      have noted' : Spelling note first (gap ++ ((inside ++ other) ++ more)) := by
        refine noted.follow ?_ ?_
        · intro ended c head
          cases gap with
          | cons d gap => exact ended c (by simpa using head)
          | nil =>
            cases inside with
            | cons d inside => exact ended c (by simpa using head)
            | nil => exact delimits ended c head
        · intro missing
          obtain ⟨c, run, same, -⟩ := spelledTarget.starts
          simp [same] at missing
      have whole := Spelling.annotated note _ lead first gap (inside ++ other) more leading noted'
        between later
      simpa [Form.annotate, Form.stripNotes] using whole
  | .symbol _, own, rest, spelled => behind_nothing spelled rfl
  | .keyword _, own, rest, spelled => behind_nothing spelled rfl
  | .string _ _, own, rest, spelled => behind_nothing spelled rfl
  | .token _, own, rest, spelled => behind_nothing spelled rfl
  | .seq _ _, own, rest, spelled => behind_nothing spelled rfl
  | .marked _ _ _, own, rest, spelled => behind_nothing spelled rfl
where
  behind_nothing {form : Form} {own rest : Text} (spelled : Spelling form own rest)
      (bare : form.stripNotes = (form, [])) :
      ∃ lead inner, own = lead ++ inner ∧ Spelling form.stripNotes.1 inner rest ∧
        (∀ fuel offset, own.length ≤ fuel →
          skipNotes fuel ⟨0, offset, own ++ rest⟩ = ⟨0, offset + lead.length, inner ++ rest⟩) ∧
        ∀ target other more, Spelling target other more →
          (Delimited (inner ++ rest) → Delimited (other ++ more)) →
          Spelling (Form.annotate form.stripNotes.2 target) (lead ++ other) more := by
    refine ⟨[], own, rfl, by rw [bare]; exact spelled, fun fuel offset _ => ?_, ?_⟩
    · exact skipNotes_plain spelled bare fuel offset
    · intro target other more spelledOther _
      rw [bare]
      exact spelledOther

end Notes

section Swap

variable {lead old new rest : Text}

/-- What ends an atom does so whatever symbol stands in place of another one behind it. -/
theorem delimited_swap (lead : Text) (shape : isAtom old = true)
    (ends : Delimited (lead ++ (old ++ rest))) :
    Delimited (lead ++ (new ++ rest)) := by
  cases lead with
  | cons c lead => exact delimited_cons.mpr (delimited_cons.mp ends)
  | nil =>
    cases old with
    | nil => simp [isAtom] at shape
    | cons c run =>
      simp only [isAtom, Bool.and_eq_true] at shape
      have other := isTerminator_of_isAtomStart shape.1
      rw [delimited_cons.mp ends] at other
      simp at other

/-- What follows a symbol ends it. -/
theorem Spelling.symbol_delimited {name own : Text} (spelled : Spelling (.symbol name) own rest) :
    Delimited rest := by
  have written := spelled.leaf_inv rfl
  generalize same : Lexeme.leaf (.symbol name) = lexeme at written
  cases written with
  | atom _ _ _ ended => exact ended
  | _ => simp at same

end Swap

section Name

variable {items : List Form} {declaration : Declaration} {body rest : Text}

/-- The items of a declaration spell its name behind layout and notes, and another symbol in its
place makes the declaration of that name. -/
theorem Items.name_inv (inside : Items items body rest)
    (made : Declaration.ofItems items = .ok declaration) :
    ∃ lead more, body = lead ++ (declaration.module ++ more) ∧ isAtom declaration.module = true ∧
      (∀ fuel offset, body.length ≤ fuel →
        skipNotes fuel ⟨0, offset, body ++ rest⟩ =
          ⟨0, offset + lead.length, declaration.module ++ (more ++ rest)⟩) ∧
      ∀ name, readsAsSymbol name = true → ∃ others, Items others (lead ++ (name ++ more)) rest ∧
        Declaration.ofItems others = .ok { declaration with module := name } := by
  obtain ⟨form, forms, module, notes, rfl, bare, rfl⟩ := Declaration.ofItems_ok_iff.mp made
  cases inside with
  | some _ _ layout own more _ leading spelled others =>
    obtain ⟨inside, inner, rfl, spelledName, skips, replaces⟩ := spelled.behind_notes
    rw [bare] at spelledName replaces
    obtain ⟨rfl, shape, -⟩ := spelledName.symbol_inv
    refine ⟨layout ++ inside, more, by simp, shape, ?_, ?_⟩
    · intro fuel offset enough
      simp only [List.length_append] at enough
      have text : layout ++ (inside ++ inner ++ more) ++ rest =
          layout ++ (inside ++ inner ++ (more ++ rest)) := by simp
      rw [text, skipNotes_layout leading, skips _ _ (by simp only [List.length_append]; omega),
        List.length_append, Nat.add_assoc]
    · intro name reads
      have spelledOther : Spelling (.symbol name) name (more ++ rest) :=
        spells_symbol reads _ spelledName.symbol_delimited
      have renamed := replaces _ _ _ spelledOther (delimited_swap [] shape)
      refine ⟨Form.annotate notes (.symbol name) :: forms, ?_, ?_⟩
      · have all := Items.some _ forms layout (inside ++ name) more rest leading renamed others
        simpa using all
      · exact Declaration.ofItems_ok_iff.mpr
          ⟨_, forms, name, notes, rfl, Form.stripNotes_annotate_symbol notes name, rfl⟩

/-- A form that is a declaration spells its name behind what `nameOffsetFrom` passes over, and
another symbol in its place makes the declaration of that name. -/
theorem Spelling.name_inv {form : Form} {own : Text} (spelled : Spelling form own rest)
    (declared : declarationItems? form = some items)
    (made : Declaration.ofItems items = .ok declaration) :
    ∃ lead more, own = lead ++ (declaration.module ++ more) ∧ isAtom declaration.module = true ∧
      (∀ fuel offset, own.length ≤ fuel →
        nameOffsetFrom fuel ⟨0, offset, own ++ rest⟩ = some (offset + lead.length)) ∧
      ∀ name, readsAsSymbol name = true →
        ∃ other others, Spelling other (lead ++ (name ++ more)) rest ∧
          declarationItems? other = some others ∧
          Declaration.ofItems others = .ok { declaration with module := name } := by
  obtain ⟨head, bare, heads⟩ := declarationItems?_eq_some_iff.mp declared
  obtain ⟨notes, inner, rfl, spelledBare, skips, replaces⟩ := spelled.behind_notes
  rw [bare] at spelledBare
  obtain ⟨body, rfl, inside⟩ := spelledBare.seq_inv
  cases inside with
  | some _ _ gap first body _ layout spelledHead others =>
    obtain ⟨lead, more, rfl, shape, finds, renames⟩ := others.name_inv made
    refine ⟨notes ++ '(' :: (gap ++ (first ++ lead)), more ++ [')'], ?_, shape, ?_, ?_⟩
    · simp [Bracket.opening, Bracket.closing]
    · intro fuel offset enough
      have opened : Cursor.advance ⟨0, offset + notes.length, Bracket.list.opening ++
          (gap ++ (first ++ (lead ++ (declaration.module ++ more))) ++
            [Bracket.list.closing]) ++ rest⟩ 1 =
          ⟨0, offset + notes.length + 1, gap ++ (first ++ (lead ++ (declaration.module ++ more) ++
            (Bracket.list.closing :: rest)))⟩ := by
        simp [Cursor.advance, Bracket.opening]
      have read : readForm ⟨0, offset + notes.length + 1, _⟩ = .ok (_, _) :=
        readForm_ok_iff.mpr ⟨gap, first, _, rfl, layout, spelledHead, rfl⟩
      rw [nameOffsetFrom, skips fuel offset enough, opened, read]
      simp only
      rw [finds]
      · simp [Form.overhang, Nat.add_assoc, Nat.add_comm, Nat.add_left_comm]
      · simp only [List.length_append] at enough ⊢
        omega
    · intro name reads
      obtain ⟨items, inside, renamed⟩ := renames name reads
      have spelledHead' : Spelling (.symbol head) first
          (lead ++ (name ++ more) ++ (Bracket.list.closing :: rest)) := by
        refine spelledHead.follow (fun ends => ?_) (by simp)
        rw [List.append_assoc, List.append_assoc] at ends ⊢
        exact delimited_swap _ shape ends
      have list := Spelling.seq .list _ _ rest
        (.some _ _ gap first _ _ layout spelledHead' inside)
      have whole := replaces _ _ rest list fun _ => delimited_cons.mpr (by decide)
      refine ⟨_, items, by simpa [Bracket.opening, Bracket.closing] using whole, ?_, renamed⟩
      refine declarationItems?_eq_some_iff.mpr ⟨head, ?_, heads⟩
      simp [Form.stripNotes]

end Name

section Parse

variable {text : Text} {declaration : Declaration}

/-- A text with a declaration has the declared name where `nameOffset?` says, and another symbol in
its place gives the same declaration but for the name. -/
theorem parse_renamed (parsed : Declaration.parse text = .ok declaration) :
    ∃ lead rest, text = lead ++ (declaration.module ++ rest) ∧ isAtom declaration.module = true ∧
      nameOffset? text = some lead.length ∧
      ∀ name, readsAsSymbol name = true →
        Declaration.parse (lead ++ (name ++ rest)) = .ok { declaration with module := name } := by
  obtain ⟨file, found, rfl⟩ := sourceFile_of_parse parsed
  obtain ⟨form, own, items, rfl, passed, spelled, declared, made⟩ := sourceFile_parse_iff.mp found
  obtain ⟨lead, more, rfl, shape, finds, renames⟩ := spelled.name_inv declared made
  refine ⟨file.before ++ lead, more ++ file.body, by simp, shape, ?_, ?_⟩
  · have spanned := find_readFormsWith passed spelled declared _ 0 (Nat.lt_succ_self _)
    have listed : (readForms (file.before ++ (lead ++ (file.declaration.module ++ more) ++
        file.body))).1.find? isDeclaration = some ⟨form, 0 + file.before.length, _⟩ := spanned
    rw [nameOffset?, listed, Option.bind_some, Cursor.ofText, Nat.zero_add, List.drop_left,
      finds _ _ (by simp only [List.length_append]; omega)]
    simp
  · intro name reads
    obtain ⟨other, others, spelledOther, declaredOther, madeOther⟩ := renames name reads
    have passedOther : Passed file.before (lead ++ (name ++ more) ++ file.body) := by
      refine passed.follow (fun ends => ?_) ?_
      · rw [List.append_assoc, List.append_assoc] at ends ⊢
        exact delimited_swap _ shape ends
      · intro missing
        obtain ⟨c, run, same, -⟩ := spelled.starts
        simp [same] at missing
    have again : SourceFile.parse (file.before ++ (lead ++ (name ++ more) ++ file.body)) =
        .ok ⟨file.before, { file.declaration with module := name }, file.body⟩ :=
      sourceFile_parse_iff.mpr
        ⟨other, _, others, rfl, passedOther, spelledOther, declaredOther, madeOther⟩
    have text : file.before ++ lead ++ (name ++ (more ++ file.body)) =
        file.before ++ (lead ++ (name ++ more) ++ file.body) := by simp
    rw [text, Declaration.parse, again]
    rfl

/-- The first occurrence of a name is replaced where it stands. By induction on what is in front,
where the name does not start anywhere. -/
theorem replaceFirst_append {old new lead rest : Text} (nonempty : old ≠ [])
    (first : occursBefore old lead.length (lead ++ (old ++ rest)) = false) :
    Text.replaceFirst old new (lead ++ (old ++ rest)) = lead ++ (new ++ rest) := by
  simp only [occursBefore, List.any_eq_false, List.mem_range, Bool.not_eq_true] at first
  induction lead with
  | nil =>
    obtain ⟨c, run, rfl⟩ := List.exists_cons_of_ne_nil nonempty
    have here : Text.startsWith (c :: run) (c :: run ++ rest) = true :=
      List.isPrefixOf_iff_prefix.mpr (List.prefix_append _ _)
    rw [List.nil_append, List.cons_append, Text.replaceFirst, ← List.cons_append, if_pos here,
      List.drop_left, List.nil_append]
  | cons c lead inductionHypothesis =>
    have notHere := first 0 (by simp)
    rw [List.drop_zero, List.cons_append] at notHere
    rw [List.cons_append, Text.replaceFirst, if_neg (by simp [notHere]), inductionHypothesis,
      List.cons_append]
    intro start inside
    exact first (start + 1) (by simpa using inside)

/-- Where the declared name does not occur in front of itself, replacing its first occurrence by
another symbol renames the declaration and changes nothing else of it. -/
theorem parse_replaceFirst (parsed : Declaration.parse text = .ok declaration) {name : Text}
    (reads : readsAsSymbol name = true)
    (first : ∀ offset ∈ nameOffset? text,
      occursBefore declaration.module offset text = false) :
    Declaration.parse (Text.replaceFirst declaration.module name text) =
      .ok { declaration with module := name } := by
  obtain ⟨lead, rest, rfl, shape, place, renames⟩ := parse_renamed parsed
  have nonempty : declaration.module ≠ [] := by
    intro missing
    simp [missing, isAtom] at shape
  rw [replaceFirst_append nonempty (first _ place)]
  exact renames name reads

end Parse

end Relocate
