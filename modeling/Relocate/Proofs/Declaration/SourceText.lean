import Relocate.Declaration.Parser
import Relocate.Proofs.Form.Spelling

/-!
# Where the declaration of a text stands

A text has a declaration exactly if it starts with layout and forms that are no declarations, then
spells a form that is one, and that form has the items of a declaration. `sourceFile_parse_iff`
states this, with the cut of the text at the declaration. It is the only place that looks into how
the forms of a text are found.
-/
namespace Relocate

/-- Text that is passed over in the search for the declaration: layout, and forms that are none.
What follows it is given. -/
inductive Passed : Text → Text → Prop where
  | layout (lead rest : Text) (layout : Layout lead) : Passed lead rest
  | form (form : Form) (lead own more rest : Text) (layout : Layout lead)
      (spelled : Spelling form own (more ++ rest)) (other : declarationItems? form = none)
      (later : Passed more rest) : Passed (lead ++ (own ++ more)) rest

/-- Text may be passed over in front of anything that does not continue it. -/
theorem Passed.follow {before rest other : Text} (passed : Passed before rest)
    (delimited : Delimited rest → Delimited other) (ended : rest = [] → other = []) :
    Passed before other := by
  induction passed with
  | layout lead rest layout => exact .layout lead other layout
  | form form lead own more rest layout spelled undeclared _ inductionHypothesis =>
    refine .form form lead own more other layout (spelled.follow ?_ ?_) undeclared
      (inductionHypothesis delimited ended)
    · cases more with
      | nil => exact delimited
      | cons c run => simp
    · cases more with
      | nil => exact ended
      | cons c run => simp

/-- The form is a declaration. -/
def isDeclaration (spanned : Spanned) : Bool := (declarationItems? spanned.form).isSome

/-- Metadata does not change where the form behind it ends. -/
@[simp] theorem Form.overhang_stripNotes :
    (form : Form) → form.stripNotes.1.overhang = form.overhang
  | .annotated _ target => Form.overhang_stripNotes target
  | .symbol _ | .keyword _ | .string _ _ | .token _ | .seq _ _ | .marked _ _ _ => rfl

/-- Reading a declaration does not pass the end of the text. -/
theorem overhang_of_declarationItems {form : Form} {items : List Form}
    (declared : declarationItems? form = some items) : form.overhang = 0 := by
  rw [← Form.overhang_stripNotes]
  rw [declarationItems?] at declared
  split at declared
  · rename_i same
    rw [same]
    rfl
  · simp at declared

/-- The first form of a text is listed with its span, and the list goes on behind it. Layout is
skipped, and the form is read behind it. -/
theorem readFormsWith_form {form : Form} {lead own rest : Text} (layout : Layout lead)
    (spelled : Spelling form own rest) (fuel offset : Nat) :
    readFormsWith (fuel + 1) ⟨0, offset, lead ++ (own ++ rest)⟩ =
      (⟨form, offset + lead.length, offset + lead.length + own.length + form.overhang⟩ ::
        (readFormsWith fuel ⟨0, offset + lead.length + own.length + form.overhang, rest⟩).1,
        (readFormsWith fuel ⟨0, offset + lead.length + own.length + form.overhang, rest⟩).2) := by
  have here : Cursor.skipLayout ⟨0, offset, lead ++ (own ++ rest)⟩ =
      ⟨0, offset + lead.length, own ++ rest⟩ := by
    change skipLayout offset _ = _
    rw [skipLayout_layout layout, skipLayout_lexeme (spelled.starts.append rest)]
  have read : readForm ⟨0, offset + lead.length, own ++ rest⟩ =
      .ok (form, ⟨0, offset + lead.length + own.length + form.overhang, rest⟩) :=
    readForm_ok_iff.mpr ⟨[], own, rest, rfl, .empty, spelled, rfl⟩
  have notEmpty : (own ++ rest).isEmpty = false := by
    obtain ⟨c, run, rfl, -⟩ := spelled.starts
    rfl
  rw [readFormsWith, here]
  simp only [notEmpty, read, Bool.false_eq_true, if_false]

/-- Layout alone has no forms. -/
theorem readFormsWith_layout {lead : Text} (layout : Layout lead) (fuel offset : Nat) :
    readFormsWith fuel ⟨0, offset, lead⟩ = ([], none) := by
  cases fuel with
  | zero => rfl
  | succ fuel =>
    have skipped : (Cursor.skipLayout ⟨0, offset, lead⟩).rest = [] := by
      change (skipLayout offset lead).rest = []
      have atEnd := skipLayout_layout layout offset []
      rw [List.append_nil] at atEnd
      rw [atEnd]
      rfl
    simp [readFormsWith, skipped]

/-- The forms of a text are those of what is passed over, none of them a declaration, then the
first form behind it, then others. -/
theorem readFormsWith_passed {form : Form} {before own body : Text}
    (passed : Passed before (own ++ body)) (spelled : Spelling form own body)
    (ends : form.overhang = 0) (fuel inner offset : Nat)
    (enough : (before ++ (own ++ body)).length < fuel) (enoughInner : before.length < inner) :
    ∃ earlier later error,
      readFormsWith inner ⟨0, offset, before⟩ = (earlier, none) ∧
      (∀ spanned ∈ earlier, declarationItems? spanned.form = none) ∧
      readFormsWith fuel ⟨0, offset, before ++ (own ++ body)⟩ =
        (earlier ++ ⟨form, offset + before.length, offset + before.length + own.length⟩ :: later,
          error) := by
  generalize rest : own ++ body = follow at passed enough
  induction passed generalizing fuel inner offset with
  | layout lead _ layout =>
    subst rest
    obtain _ | fuel := fuel
    · omega
    rw [readFormsWith_form layout spelled, ends]
    exact ⟨[], _, _, readFormsWith_layout layout inner offset, by simp, rfl⟩
  | form other lead first more _ layout spelledOther undeclared _ inductionHypothesis =>
    subst rest
    obtain _ | fuel := fuel
    · omega
    obtain _ | inner := inner
    · omega
    have ended : other.overhang = 0 := by
      obtain ⟨c, run, rfl, -⟩ := spelled.starts
      exact spelledOther.overhang (by simp)
    have spelledAlone : Spelling other first more := by
      refine spelledOther.follow (fun delimited => ?_) (by simp_all)
      cases more with
      | nil => exact delimited_nil
      | cons c run => simpa using delimited
    have shorter : (more ++ (own ++ body)).length < fuel ∧ more.length < inner := by
      obtain ⟨c, run, rfl, -⟩ := spelledOther.starts
      simp only [List.length_append, List.length_cons] at enough enoughInner ⊢
      omega
    obtain ⟨earlier, later, error, alone, others, whole⟩ := inductionHypothesis fuel inner
      (offset + lead.length + first.length) shorter.2 rfl shorter.1
    refine ⟨⟨other, offset + lead.length, offset + lead.length + first.length⟩ :: earlier, later,
      error, ?_, by simpa [undeclared] using others, ?_⟩
    · rw [readFormsWith_form layout spelledAlone, ended, Nat.add_zero, alone]
    · have text : lead ++ (first ++ more) ++ (own ++ body) =
          lead ++ (first ++ (more ++ (own ++ body))) := by simp
      rw [text, readFormsWith_form layout spelledOther, ended, Nat.add_zero, whole]
      simp [Nat.add_assoc]

/-- The search passes over what is no declaration and finds the first that is one. -/
theorem find_readFormsWith {form : Form} {before own body : Text} {items : List Form}
    (passed : Passed before (own ++ body)) (spelled : Spelling form own body)
    (declared : declarationItems? form = some items) (fuel offset : Nat)
    (enough : (before ++ (own ++ body)).length < fuel) :
    (readFormsWith fuel ⟨0, offset, before ++ (own ++ body)⟩).1.find? isDeclaration =
      some ⟨form, offset + before.length, offset + before.length + own.length⟩ := by
  obtain ⟨earlier, later, error, -, others, whole⟩ := readFormsWith_passed passed spelled
    (overhang_of_declarationItems declared) fuel (before.length + 1) offset enough (by omega)
  have missing : earlier.find? isDeclaration = none := by
    rw [List.find?_eq_none]
    intro spanned member
    simp [isDeclaration, others spanned member]
  rw [whole, List.find?_append, missing, Option.none_or, List.find?_cons]
  simp [isDeclaration, declared]

/-- A text with forms starts with a spelled one. A form in the list has been read, and what has been
read is spelled. -/
theorem spelled_of_readFormsWith {fuel offset : Nat} {text : Text}
    (nonempty : (readFormsWith (fuel + 1) ⟨0, offset, text⟩).1 ≠ []) :
    ∃ lead form own rest, text = lead ++ (own ++ rest) ∧ Layout lead ∧ Spelling form own rest := by
  have same : Cursor.skipLayout ⟨0, offset, text⟩ = skipLayout offset text := rfl
  have skipped := skipLayout_skipped offset text
  rw [readFormsWith, same] at nonempty
  generalize skipLayout offset text = here at skipped nonempty
  obtain ended | ⟨lead, rfl, layout, -, place⟩ := skipped
  · simp [ended] at nonempty
  · cases read : readForm here with
    | error failure =>
      rw [read] at nonempty
      split at nonempty <;> simp at nonempty
    | ok result =>
      rw [place] at read
      obtain ⟨inner, own, rest, split, leading, spelled, -⟩ := readForm_ok_iff.mp read
      refine ⟨lead ++ inner, result.1, own, rest, ?_, layout.append leading, spelled⟩
      rw [split, List.append_assoc]

/-- What the search finds is spelled in the text behind what is passed over. By induction on the
bound of the list: the first form is the declaration, or is passed over. -/
theorem passed_of_find {fuel offset : Nat} {text : Text} {found : Spanned}
    (read : (readFormsWith fuel ⟨0, offset, text⟩).1.find? isDeclaration = some found) :
    ∃ before own body, text = before ++ (own ++ body) ∧ Passed before (own ++ body) ∧
      Spelling found.form own body ∧
      found = ⟨found.form, offset + before.length, offset + before.length + own.length⟩ := by
  induction fuel generalizing offset text with
  | zero => simp [readFormsWith] at read
  | succ fuel inductionHypothesis =>
    have nonempty : (readFormsWith (fuel + 1) ⟨0, offset, text⟩).1 ≠ [] := by
      intro missing
      simp [missing] at read
    obtain ⟨lead, form, own, rest, rfl, layout, spelled⟩ := spelled_of_readFormsWith nonempty
    rw [readFormsWith_form layout spelled, List.find?_cons] at read
    split at read
    · rename_i declares
      obtain rfl := Option.some.inj read
      obtain ⟨items, declared⟩ := Option.isSome_iff_exists.mp declares
      refine ⟨lead, own, rest, rfl, .layout lead _ layout, spelled, ?_⟩
      rw [overhang_of_declarationItems declared]
      rfl
    · rename_i other
      obtain ⟨before, declaration, body, rfl, passed, spelledLater, place⟩ :=
        inductionHypothesis read
      have nothing : declarationItems? form = none := by
        simpa [isDeclaration] using other
      have ends : form.overhang = 0 := by
        obtain ⟨c, run, rfl, -⟩ := spelledLater.starts
        exact spelled.overhang (by simp)
      refine ⟨lead ++ (own ++ before), declaration, body, by simp,
        .form form lead own before _ layout spelled nothing passed, spelledLater, ?_⟩
      rw [place, ends]
      simp [Nat.add_assoc]

/-- The declaration of a text is made from the first form that is one. -/
theorem sourceFile_parse_found {text : Text} {spanned : Spanned}
    (found : (readForms text).1.find? isDeclaration = some spanned) :
    SourceFile.parse text =
      (Declaration.ofItems ((declarationItems? spanned.form).getD [])).map fun declaration =>
        ⟨text.take spanned.start, declaration, text.drop spanned.stop⟩ := by
  have searched : ((readForms text).1.find? fun spanned =>
      (declarationItems? spanned.form).isSome) = some spanned := found
  rw [SourceFile.parse]
  simp only [searched]

/-- A text is parsed only if a form of it is a declaration. -/
theorem found_of_sourceFile_parse {text : Text} {file : SourceFile}
    (parsed : SourceFile.parse text = .ok file) :
    ∃ spanned, (readForms text).1.find? isDeclaration = some spanned := by
  cases found : (readForms text).1.find? isDeclaration with
  | some spanned => exact ⟨spanned, rfl⟩
  | none =>
    have searched : ((readForms text).1.find? fun spanned =>
        (declarationItems? spanned.form).isSome) = none := found
    rw [SourceFile.parse] at parsed
    simp only [searched] at parsed
    split at parsed <;> simp at parsed

/-- A text has a declaration exactly if it spells one behind what is passed over. The parts of the
file are cut from the text at the span of the form that is found, which is where its spelling
stands. -/
theorem sourceFile_parse_iff {text : Text} {file : SourceFile} :
    SourceFile.parse text = .ok file ↔
      ∃ form own items, text = file.before ++ (own ++ file.body) ∧
        Passed file.before (own ++ file.body) ∧ Spelling form own file.body ∧
        declarationItems? form = some items ∧
        Declaration.ofItems items = .ok file.declaration := by
  constructor
  · intro parsed
    obtain ⟨spanned, found⟩ := found_of_sourceFile_parse parsed
    rw [sourceFile_parse_found found] at parsed
    have declares : isDeclaration spanned = true := List.find?_some found
    obtain ⟨items, declared⟩ := Option.isSome_iff_exists.mp declares
    obtain ⟨before, own, body, split, passed, spelled, place⟩ := passed_of_find found
    rw [List.drop_zero] at split
    cases made : Declaration.ofItems items with
    | error failure => simp [declared, made, Except.map] at parsed
    | ok declaration =>
      rw [place] at parsed
      simp only [declared, made, Option.getD_some, Except.map, Except.ok.injEq] at parsed
      subst parsed split
      have start : (before ++ (own ++ body)).take (0 + before.length) = before := by simp
      have stop : (before ++ (own ++ body)).drop (0 + before.length + own.length) = body := by
        rw [← List.append_assoc, Nat.zero_add, ← List.length_append, List.drop_left]
      rw [start, stop]
      exact ⟨spanned.form, own, items, rfl, passed, spelled, declared, made⟩
  · rintro ⟨form, own, items, split, passed, spelled, declared, made⟩
    have found := find_readFormsWith passed spelled declared (text.length + 1) 0
      (by rw [split]; omega)
    rw [← split] at found
    rw [sourceFile_parse_found found, declared, Option.getD_some, made]
    have start : text.take (0 + file.before.length) = file.before := by simp [split]
    have stop : text.drop (0 + file.before.length + own.length) = file.body := by
      rw [split, ← List.append_assoc, Nat.zero_add, ← List.length_append, List.drop_left]
    simp only [Except.map, start, stop]

/-- The form of the declaration of a text, without metadata in front of it. -/
def declarationForm? (text : Text) : Option Form :=
  ((readForms text).1.find? isDeclaration).map fun spanned => spanned.form.stripNotes.1

/-- The form of the declaration is the one that the text spells. -/
theorem declarationForm?_eq {form : Form} {before own body : Text} {items : List Form}
    (passed : Passed before (own ++ body)) (spelled : Spelling form own body)
    (declared : declarationItems? form = some items) :
    declarationForm? (before ++ (own ++ body)) = some form.stripNotes.1 := by
  have found := find_readFormsWith passed spelled declared _ 0 (Nat.lt_succ_self _)
  rw [declarationForm?, readForms]
  exact found ▸ rfl

/-- The symbol heads declarations. -/
def headsDeclaration (head : Text) : Bool :=
  head = "ns".toList || head = "clojure.core/ns".toList

/-- A form is a declaration exactly if it is a list with the head of one and the items. -/
theorem declarationItems?_eq_some_iff {form : Form} {items : List Form} :
    declarationItems? form = some items ↔
      ∃ head, form.stripNotes.1 = .seq .list (.symbol head :: items) ∧
        headsDeclaration head = true := by
  constructor
  · intro declared
    unfold declarationItems? at declared
    split at declared
    · rename_i head others same
      split at declared
      · rename_i heads
        exact ⟨head, Option.some.inj declared ▸ same, heads⟩
      · simp at declared
    · simp at declared
  · rintro ⟨head, same, heads⟩
    rw [headsDeclaration] at heads
    simp only [declarationItems?, same]
    rw [if_pos heads]

/-- Behind the metadata in front of a spelled form the form itself is spelled. -/
theorem Spelling.stripNotes {form : Form} {own rest : Text} (spelled : Spelling form own rest) :
    ∃ inner, Spelling form.stripNotes.1 inner rest := by
  match form with
  | .annotated note target =>
    obtain ⟨_, _, _, second, -, -, -, -, spelledTarget⟩ := spelled.annotated_inv
    exact spelledTarget.stripNotes
  | .symbol _ | .keyword _ | .string _ _ | .token _ | .seq _ _ | .marked _ _ _ =>
    exact ⟨own, spelled⟩

end Relocate
