import Relocate.Proofs.Form.Spelling

/-!
# Writing a form and reading it back

A form that has been read and is written on one line reads back as itself, up to two points. Where
`~` or `#?` stands in front of `@` they are written without a gap and read as the longer mark;
`Form.merged` is the form with these marks joined. A tag such as `#:person` is written close to its
form, so that form has to start with a bracket or a quote; `Form.tagsApply` says so.

`Spelling.render` states this for what follows not continuing the form, and `Form.renderStable` is
the condition under which nothing is joined.
-/
namespace Relocate

/-- The text starts with an opening bracket of one character, or with a quote. -/
def opensGroup : Text → Bool
  | c :: _ => c = '(' || c = '[' || c = '{' || c = '"'
  | [] => false

namespace Form

/-- The form is marked with `@`. -/
def isDeref : Form → Bool
  | .marked mark _ _ => mark = ['@']
  | _ => false

mutual

/-- Every tag that stands close to its form is applied to one that starts with a bracket or a
quote. -/
def tagsApply : Form → Bool
  | .seq _ items => tagsApplyAll items
  | .annotated note target => note.tagsApply && target.tagsApply
  | .marked mark _ target =>
    (!Text.startsWith ['#', ':'] mark || opensGroup target.render) && target.tagsApply
  | _ => true

def tagsApplyAll : List Form → Bool
  | [] => true
  | form :: forms => form.tagsApply && tagsApplyAll forms

end

mutual

/-- No mark would be read together with the one behind it. -/
def marksApart : Form → Bool
  | .seq _ items => marksApartAll items
  | .annotated note target => note.marksApart && target.marksApart
  | .marked mark _ target =>
    !((mark = ['~'] || mark = ['#', '?']) && target.isDeref) && target.marksApart
  | _ => true

def marksApartAll : List Form → Bool
  | [] => true
  | form :: forms => form.marksApart && marksApartAll forms

end

/-- Writing the form and reading it back changes nothing. -/
def renderStable (form : Form) : Bool := form.marksApart && form.tagsApply

/-- A mark in front of a form, joined with the `@` of the form if the two are read together. -/
def joinMark (mark gap : Text) (target : Form) : Form :=
  if (mark = ['~'] || mark = ['#', '?']) && gap = [] then
    match target with
    | .marked inner rest target =>
      if inner = ['@'] then .marked (mark ++ inner) rest target
      else .marked mark gap (.marked inner rest target)
    | _ => .marked mark gap target
  else .marked mark gap target

mutual

/-- The form with the marks joined that are read together. -/
def merged : Form → Form
  | .seq bracket items => .seq bracket (mergedAll items)
  | .annotated note target => .annotated note.merged target.merged
  | .marked mark gap target => joinMark mark gap target.merged
  | form => form

def mergedAll : List Form → List Form
  | [] => []
  | form :: forms => form.merged :: mergedAll forms

end

/-- Forms are merged one by one. -/
theorem mergedAll_eq_map (forms : List Form) : mergedAll forms = forms.map merged := by
  induction forms with
  | nil => rfl
  | cons form forms inductionHypothesis => simp [mergedAll, inductionHypothesis]

/-- Joining a mark does not change what is written. -/
@[simp] theorem render_joinMark (mark gap : Text) (target : Form) :
    (joinMark mark gap target).render = mark ++ gap ++ target.render := by
  unfold joinMark
  split
  · rename_i joins
    simp only [Bool.and_eq_true, decide_eq_true_eq] at joins
    cases target with
    | marked inner rest target =>
      by_cases deref : inner = ['@']
      · simp [deref, render, joins.2]
      · simp [deref, render]
    | _ => simp [render]
  · simp [render]

mutual

/-- Joining marks does not change what is written. -/
@[simp] theorem render_merged : (form : Form) → form.merged.render = form.render
  | .symbol _ => rfl
  | .keyword _ => rfl
  | .string _ _ => rfl
  | .token _ => rfl
  | .seq bracket items => by simp [merged, render, renderItems_mergedAll items]
  | .annotated note target => by simp [merged, render, render_merged note, render_merged target]
  | .marked mark gap target => by
    rw [merged, render_joinMark, render_merged target, render]

/-- Merging the marks in items does not show in their text. -/
@[simp] theorem renderItems_mergedAll :
    (forms : List Form) → renderItems (mergedAll forms) = renderItems forms
  | [] => rfl
  | [form] => by simp [mergedAll, renderItems, render_merged form]
  | form :: other :: forms => by
    have others := renderItems_mergedAll (other :: forms)
    rw [mergedAll] at others
    simp [mergedAll, renderItems, render_merged form, others]

end

mutual

/-- Where no marks are read together, there is nothing to join. By recursion on the form; a mark is
joined with the next one only if that is `@`. -/
theorem merged_of_marksApart : (form : Form) → form.marksApart = true → form.merged = form
  | .symbol _, _ => rfl
  | .keyword _, _ => rfl
  | .string _ _, _ => rfl
  | .token _, _ => rfl
  | .seq bracket items, apart => by
    rw [merged, mergedAll_of_marksApart items apart]
  | .annotated note target, apart => by
    simp only [marksApart, Bool.and_eq_true] at apart
    rw [merged, merged_of_marksApart note apart.1, merged_of_marksApart target apart.2]
  | .marked mark gap target, apart => by
    simp only [marksApart, Bool.and_eq_true, Bool.not_eq_true'] at apart
    rw [merged, merged_of_marksApart target apart.2]
    unfold joinMark
    split
    · rename_i joins
      simp only [Bool.and_eq_true] at joins
      cases target with
      | marked inner rest target =>
        have notDeref : inner ≠ ['@'] := by simpa [joins.1, isDeref] using apart.1
        simp [notDeref]
      | _ => rfl
    · rfl

/-- Items whose marks are apart have nothing to merge. -/
theorem mergedAll_of_marksApart :
    (forms : List Form) → marksApartAll forms = true → mergedAll forms = forms
  | [], _ => rfl
  | form :: forms, apart => by
    simp only [marksApartAll, Bool.and_eq_true] at apart
    rw [mergedAll, merged_of_marksApart form apart.1, mergedAll_of_marksApart forms apart.2]

end

end Form

/-- A form without parts is written as it was read. -/
theorem Written.leaf_render {form : Form} {own rest : Text}
    (written : Written (.leaf form) own rest) :
    form.render = own ∧ form.merged = form := by
  cases written with
  | atom =>
    unfold Form.ofAtom
    split
    · exact ⟨rfl, rfl⟩
    · split <;> exact ⟨rfl, rfl⟩
  | _ => exact ⟨rfl, rfl⟩

/-- A form without parts that does not pass the end of the text may be followed by anything that
ends an atom. -/
theorem Written.leaf_delimited {form : Form} {own rest other : Text}
    (written : Written (.leaf form) own rest) (closed : form.overhang = 0)
    (delimited : Delimited other) : Written (.leaf form) own other := by
  cases written with
  | atom _ _ shape => exact .atom own other shape delimited
  | string body value _ ends => exact .string body value other ends
  | pattern body value _ ends => exact .pattern body value other ends
  | character c run _ shape => exact .character c run other shape delimited
  | backslash => simp [Form.overhang] at closed

/-- The first character of a form's text tells what the form can be. By cases on the spelling: an
atom starts with neither, and only one mark and one bracket do. -/
theorem Spelling.eq_of_head {form : Form} {own rest : Text} (spelled : Spelling form own rest) :
    (own.head? = some '@' → ∃ target, form = .marked ['@'] [] target) ∧
      (own.head? = some '(' → ∃ items, form = .seq .list items) := by
  have atom (c : Char) (run : Text) (shape : isAtom (c :: run) = true) : c ≠ '@' ∧ c ≠ '(' := by
    constructor <;> rintro rfl <;> simp [isAtom] at shape <;> exact absurd shape.1 (by decide)
  cases spelled with
  | leaf _ _ _ written =>
    cases written with
    | atom _ _ shape =>
      cases own with
      | nil => simp
      | cons c run => simp [atom c run shape]
    | _ => simp
  | seq bracket items body => cases bracket <;> simp [Bracket.opening]
  | annotated => simp
  | marked mark gap target own lead first _ written =>
    cases written with
    | quote c _ known => rcases known with rfl | rfl | rfl <;> simp
    | _ => simp

/-- A text that starts with a bracket or a quote ends an atom in front of it. -/
theorem delimited_of_opensGroup {text : Text} (opens : opensGroup text = true) (rest : Text) :
    Delimited (text ++ rest) := by
  cases text with
  | nil => simp [opensGroup] at opens
  | cons c run =>
    simp only [opensGroup, Bool.or_eq_true, decide_eq_true_eq] at opens
    refine delimited_cons.mpr ?_
    rcases opens with ((rfl | rfl) | rfl) | rfl <;> decide

/-- Where `@` would be read together with the mark in front of it, the two are one mark. By cases on
whether the form's text starts with `@`, which tells whether the form is marked with it. -/
theorem spelling_joined {mark text rest : Text} {target : Form}
    (spelled : Spelling target text rest)
    (known : mark = ['~'] ∨ mark = ['#', '?'])
    (alone : ∀ follow : Text, follow.head? ≠ some '@' → Written (.mark mark []) mark follow)
    (joined : ∀ follow, Written (.mark (mark ++ ['@']) []) (mark ++ ['@']) follow) :
    Spelling (Form.joinMark mark [] target) (mark ++ text) rest := by
  have joins : ((decide (mark = ['~']) || decide (mark = ['#', '?'])) && decide (([] : Text) = []))
      = true := by
    rcases known with rfl | rfl <;> decide
  unfold Form.joinMark
  rw [if_pos joins]
  by_cases deref : text.head? = some '@'
  · obtain ⟨inner, rfl⟩ := spelled.eq_of_head.1 deref
    obtain ⟨own, lead, first, rfl, written, between, spelledInner⟩ := spelled.marked_inv
    cases written with
    | quote c _ known =>
      have text : mark ++ (['@'] ++ (lead ++ first)) = (mark ++ ['@']) ++ (lead ++ first) := by simp
      rw [text]
      exact .marked _ _ inner _ lead first rest (joined _) between spelledInner
  · have single : (text ++ rest).head? ≠ some '@' := by
      obtain ⟨c, run, rfl, -⟩ := spelled.starts
      simpa using deref
    have plain := Spelling.marked mark [] target mark [] text rest (alone _ single) .empty spelled
    cases target with
    | marked inner gap target =>
      obtain ⟨own, lead, first, rfl, written, -⟩ := spelled.marked_inv
      have notDeref : inner ≠ ['@'] := by
        rintro rfl
        cases written with
        | quote => simp at deref
      simpa [notDeref] using plain
    | _ => exact plain

/-- A mark in front of a spelled form is spelled with it. By cases on the mark. Only the two that
`@` may join need more than the mark's own text. -/
theorem spelling_joinMark {mark gap own follow text rest : Text} {target : Form}
    (written : Written (.mark mark gap) own follow) (spelled : Spelling target text rest)
    (applied : mark = ['#'] → text.head? = some '(')
    (tagged : Text.startsWith ['#', ':'] mark = true → opensGroup text = true) :
    Spelling (Form.joinMark mark gap target) (mark ++ gap ++ text) rest := by
  cases written with
  | quote c _ known =>
    rcases known with rfl | rfl | rfl <;>
      exact .marked _ _ target _ [] text rest (.quote _ _ (by simp)) .empty spelled
  | unquote =>
    exact spelling_joined spelled (.inl rfl) .unquote .splice
  | splice => exact .marked _ _ target _ [] text rest (.splice _) .empty spelled
  | hashed c _ known =>
    rcases known with rfl | rfl <;>
      exact .marked _ _ target _ [] text rest (.hashed _ _ (by simp)) .empty spelled
  | conditional =>
    exact spelling_joined spelled (.inr rfl) .conditional .conditionalSplice
  | conditionalSplice =>
    exact .marked _ _ target _ [] text rest (.conditionalSplice _) .empty spelled
  | function =>
    have opens : (text ++ rest).head? = some '(' := by
      obtain ⟨c, run, rfl, -⟩ := spelled.starts
      simpa using applied rfl
    exact .marked _ _ target _ [] text rest (.function _ opens) .empty spelled
  | tag tag _ shape _ =>
    have notConditional : ('#' :: tag) ≠ ['#', '?'] := by
      intro same
      obtain rfl : tag = ['?'] := (List.cons.inj same).2
      exact absurd shape (by decide)
    have plain : Form.joinMark ('#' :: tag) (tagGap tag) target =
        .marked ('#' :: tag) (tagGap tag) target := by
      simp [Form.joinMark, notConditional]
    rw [plain]
    cases tag with
    | nil => simp [isTag] at shape
    | cons c run =>
      by_cases colon : c = ':'
      · subst colon
        have ended := delimited_of_opensGroup (tagged rfl) rest
        rw [show tagGap (':' :: run) = [] from rfl, List.append_nil]
        exact .marked _ _ target _ [] text rest (.tag _ _ shape ended) .empty spelled
      · have gap : tagGap (c :: run) = [' '] := by simp [tagGap, colon]
        have ended : Delimited ([' '] ++ (text ++ rest)) := delimited_cons.mpr (by decide)
        have written := Written.tag (c :: run) _ shape ended
        rw [gap] at written ⊢
        rw [List.append_assoc]
        exact .marked _ _ target _ [' '] text rest written (.space ' ' [] (by decide) .empty)
          spelled

/-- A hash sign alone stands directly in front of a list. No other mark is written so, and layout
does not start with a bracket. -/
theorem Written.function_inv {gap own lead first rest : Text}
    (written : Written (.mark ['#'] gap) own (lead ++ (first ++ rest))) (layout : Layout lead)
    (starts : StartsLexeme first) : first.head? = some '(' := by
  obtain ⟨d, run, rfl, -⟩ := starts
  have applied : (lead ++ (d :: run ++ rest)).head? = some '(' := by
    generalize lead ++ (d :: run ++ rest) = follow at written
    generalize same : Lexeme.mark ['#'] gap = lexeme at written
    cases written with
    | quote c _ known =>
      simp only [Lexeme.mark.injEq, List.cons.injEq, and_true] at same
      rcases known with rfl | rfl | rfl <;> exact absurd same.1 (by decide)
    | function _ applied => exact applied
    | tag tag _ shape =>
      simp only [Lexeme.mark.injEq, List.cons.injEq, true_and] at same
      rw [← same.1] at shape
      exact absurd shape (by decide)
    | _ => simp at same
  cases layout with
  | empty => simpa using applied
  | space c _ blank =>
    obtain rfl : c = '(' := by simpa using applied
    exact absurd blank (by decide)
  | comment => simp at applied

/-- Layout in front of items is layout of theirs. -/
theorem Items.lead {items : List Form} {body rest lead : Text} (inside : Items items body rest)
    (layout : Layout lead) : Items items (lead ++ body) rest := by
  cases inside with
  | none inner _ leading => exact .none _ rest (layout.append leading)
  | some form forms inner own body _ leading spelled others =>
    rw [← List.append_assoc]
    exact .some form forms _ own body rest (layout.append leading) spelled others

mutual

/-- A form that has been read is written so that it reads back, with marks joined. By recursion on
the spelling: each part is rendered in front of a delimiter, which is the space or bracket that is
put behind it. -/
theorem Spelling.render {form : Form} {own rest other : Text} (spelled : Spelling form own rest)
    (closed : form.overhang = 0) (tags : form.tagsApply = true) (delimited : Delimited other) :
    Spelling form.merged form.render other := by
  match spelled with
  | .leaf _ _ _ written =>
    obtain ⟨rendered, same⟩ := written.leaf_render
    rw [rendered, same]
    exact .leaf _ _ _ (written.leaf_delimited closed delimited)
  | .seq bracket items body _ inside =>
    have closes : Delimited (bracket.closing :: other) :=
      delimited_cons.mpr (isTerminator_closing bracket)
    have spelledItems := inside.render (by simp) (by simpa [Form.tagsApply] using tags) closes
    rw [Form.merged, Form.render, List.append_assoc]
    exact .seq bracket _ _ other spelledItems
  | .annotated note target lead first gap second _ leading noted between spelledTarget =>
    simp only [Form.tagsApply, Bool.and_eq_true] at tags
    have more : gap ++ (second ++ rest) ≠ [] := by
      obtain ⟨c, run, rfl, -⟩ := spelledTarget.starts
      simp
    have spelledSecond := spelledTarget.render closed tags.2 delimited
    have space : Delimited ([' '] ++ (target.render ++ other)) := delimited_cons.mpr (by decide)
    have spelledFirst := noted.render (noted.overhang more) tags.1 space
    exact .annotated _ _ [] note.render [' '] target.render other .empty spelledFirst
      (.space ' ' [] (by decide) .empty) spelledSecond
  | .marked mark gap target text lead first _ written between spelledTarget =>
    simp only [Form.tagsApply, Bool.and_eq_true, Bool.or_eq_true, Bool.not_eq_true'] at tags
    have spelledFirst := spelledTarget.render closed tags.2 delimited
    rw [Form.merged, Form.render]
    refine spelling_joinMark written spelledFirst ?_ ?_
    · rintro rfl
      obtain ⟨items, rfl⟩ := spelledTarget.eq_of_head.2 (written.function_inv between
        spelledTarget.starts)
      rfl
    · intro close
      simpa [close] using tags.1

/-- Items that have been read are written so that they read back. By recursion on the items, which
are written with a space in between. -/
theorem Items.render {items : List Form} {body rest other : Text} (inside : Items items body rest)
    (more : rest ≠ []) (tags : Form.tagsApplyAll items = true) (delimited : Delimited other) :
    Items (Form.mergedAll items) (Form.renderItems items) other := by
  match inside with
  | .none _ _ _ => exact .none [] other .empty
  | .some form forms lead own body _ layout spelled others =>
    simp only [Form.tagsApplyAll, Bool.and_eq_true] at tags
    have closed := spelled.overhang (by simp [more])
    have spelledOthers := others.render more tags.2 delimited
    cases forms with
    | nil =>
      have spelledFirst : Spelling form.merged form.render ([] ++ other) :=
        spelled.render closed tags.1 delimited
      simpa [Form.renderItems, Form.mergedAll] using
        Items.some _ [] [] form.render [] other .empty spelledFirst (.none [] other .empty)
    | cons next forms =>
      have space : Delimited (([' '] ++ Form.renderItems (next :: forms)) ++ other) :=
        delimited_cons.mpr (by decide)
      have spelledFirst := spelled.render closed tags.1 space
      exact .some _ _ [] form.render _ other .empty spelledFirst
        (spelledOthers.lead (.space ' ' [] (by decide) .empty))

end

end Relocate
