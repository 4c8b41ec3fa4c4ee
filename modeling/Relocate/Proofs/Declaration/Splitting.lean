import Mathlib.Data.List.Basic
import Relocate.Proofs.Declaration.SourceText

/-!
# What stands behind the declaration does not matter

A declaration ends with a closing bracket, so no text behind it continues it. A text is therefore
split at its declaration without a look at what follows: `sourceFile_parse_replace` puts any other
text there, balanced or not, and gets the same split. The three parts of the text also read as they
stand, each by itself.
-/
namespace Relocate

/-- A sequence, also behind metadata, may be followed by any text. By recursion on the form: a
sequence ends with its own bracket. -/
theorem Spelling.replace {own rest : Text} : {form : Form} → Spelling form own rest →
    {bracket : Bracket} → {items : List Form} → form.stripNotes.1 = .seq bracket items →
    (other : Text) → Spelling form own other
  | .seq inner members, spelled, _, _, _, other => by
    obtain ⟨body, rfl, inside⟩ := spelled.seq_inv
    refine .seq inner members body other (inside.follow (fun _ => ?_) (by simp))
    exact delimited_cons.mpr (isTerminator_closing inner)
  | .annotated note target, spelled, _, _, bare, other => by
    obtain ⟨lead, first, gap, second, rfl, leading, noted, between, spelledTarget⟩ :=
      spelled.annotated_inv
    obtain ⟨c, run, rfl, -⟩ := spelledTarget.starts
    refine .annotated note target lead first gap _ other leading (noted.follow ?_ (by simp)) between
      (spelledTarget.replace bare other)
    intro ends d head
    refine ends d ?_
    cases gap <;> simpa using head
  | .symbol _, _, _, _, bare, _ | .keyword _, _, _, _, bare, _ | .string _ _, _, _, _, bare, _
  | .token _, _, _, _, bare, _ | .marked _ _ _, _, _, _, bare, _ => by
    simp [Form.stripNotes] at bare

/-- A sequence, also behind metadata, ends with its closing bracket. -/
theorem Spelling.getLast?_of_bare {own rest : Text} : {form : Form} → Spelling form own rest →
    {bracket : Bracket} → {items : List Form} → form.stripNotes.1 = .seq bracket items →
    own.getLast? = some bracket.closing
  | .seq inner members, spelled, _, _, bare => by
    obtain ⟨body, rfl, -⟩ := spelled.seq_inv
    obtain ⟨rfl, -⟩ := Form.seq.inj bare
    simp [List.getLast?_append]
  | .annotated note target, spelled, _, _, bare => by
    obtain ⟨lead, first, gap, second, rfl, -, -, -, spelledTarget⟩ := spelled.annotated_inv
    have last := spelledTarget.getLast?_of_bare bare
    simp [List.getLast?_cons, List.getLast?_append, last]
  | .symbol _, _, _, _, bare | .keyword _, _, _, _, bare | .string _ _, _, _, _, bare
  | .token _, _, _, _, bare | .marked _ _ _, _, _, _, bare => by
    simp [Form.stripNotes] at bare

/-- What is passed over in front of a form is so whatever follows the form. -/
theorem Passed.replace {form : Form} {before own body rest : Text}
    (passed : Passed before (own ++ body)) (spelled : Spelling form own rest) (other : Text) :
    Passed before (own ++ other) := by
  obtain ⟨c, run, rfl, -⟩ := spelled.starts
  exact passed.follow (fun ends => by simpa using ends) (by simp)

/-- A spelled form without anything around it is the only form of its text. -/
theorem readForms_spelled {form : Form} {own : Text} (spelled : Spelling form own [])
    (ends : form.overhang = 0) : readForms own = ([⟨form, 0, own.length⟩], none) := by
  have read := readFormsWith_form .empty spelled own.length 0
  rw [readFormsWith_layout .empty, ends] at read
  simpa [readForms, Cursor.ofText] using read

/-- A text is split at its declaration, and any text may replace what stands behind it. The
declaration by itself is one form, and what stands in front of it has no declaration. The search for
the declaration passes over what is in front and stops at the closing bracket, so that it never sees
what follows. -/
theorem sourceFile_parse_replace {text : Text} {file : SourceFile}
    (parsed : SourceFile.parse text = .ok file) :
    ∃ own form head items later,
      text = file.before ++ own ++ file.body ∧
      readForms own = ([⟨form, 0, own.length⟩], none) ∧
      form.stripNotes.1 = .seq .list (.symbol head :: items) ∧
      (head = "ns".toList ∨ head = "clojure.core/ns".toList) ∧
      (readForms file.before).2 = none ∧
      (∀ spanned ∈ (readForms file.before).1, declarationItems? spanned.form = none) ∧
      (readForms text).1 = (readForms file.before).1 ++
        ⟨form, file.before.length, file.before.length + own.length⟩ :: later ∧
      ∀ body, SourceFile.parse (file.before ++ own ++ body) =
        .ok ⟨file.before, file.declaration, body⟩ := by
  obtain ⟨form, own, items, split, passed, spelled, declared, made⟩ :=
    sourceFile_parse_iff.mp parsed
  obtain ⟨head, bare, heads⟩ := declarationItems?_eq_some_iff.mp declared
  have ends := overhang_of_declarationItems declared
  obtain ⟨earlier, later, error, alone, others, whole⟩ := readFormsWith_passed passed spelled ends
    (text.length + 1) (file.before.length + 1) 0 (by rw [split]; omega) (by omega)
  rw [← split, Nat.zero_add] at whole
  have front : readForms file.before = (earlier, none) := alone
  have listed : (readForms text).1 = earlier ++
      ⟨form, file.before.length, file.before.length + own.length⟩ :: later :=
    congrArg Prod.fst whole
  refine ⟨own, form, head, items, later, by rw [split, List.append_assoc], ?_, bare, ?_, ?_, ?_, ?_,
    fun body => ?_⟩
  · exact readForms_spelled (spelled.replace bare []) ends
  · simpa only [headsDeclaration, Bool.or_eq_true, decide_eq_true_eq] using heads
  · rw [front]
  · rw [front]
    exact others
  · rw [front, listed]
  · rw [List.append_assoc]
    exact sourceFile_parse_iff.mpr ⟨form, own, items, rfl, passed.replace spelled body,
      spelled.replace bare body, declared, made⟩

/-- Neither a declaration in a comment nor a stray bracket and an open string behind the declaration
matter. -/
theorem sourceFile_parse_replace_unbalanced :
    let before := ";; (ns gone)\n(def x)".toList
    let own := "^:doc (ns a.b)".toList
    let declaration : Declaration := ⟨"a.b".toList, [], [], []⟩
    SourceFile.parse (before ++ own ++ ") \"".toList) = .ok ⟨before, declaration, ") \"".toList⟩ ∧
      ∀ body, SourceFile.parse (before ++ own ++ body) = .ok ⟨before, declaration, body⟩ := by
  intro before own declaration
  have parsed : SourceFile.parse (before ++ own ++ ") \"".toList) =
      .ok ⟨before, declaration, ") \"".toList⟩ := by decide +kernel
  obtain ⟨middle, _, _, _, _, split, -, -, -, -, -, -, replaces⟩ := sourceFile_parse_replace parsed
  have same : own = middle := List.append_cancel_left (List.append_cancel_right split)
  exact ⟨parsed, fun body => same ▸ replaces body⟩

end Relocate
