import Relocate.Proofs.Form.Progress

/-!
# The forms of a text tile it

The forms of a text stand one behind the other, with layout around them and nothing else. Each of
them is read from its own span alone just as in the whole text, so that what follows a form does not
matter to it. `tiling_readForms` collects this. It follows from `Stands`, which says of one form
where it stands behind an offset, and of which a list of forms is a chain.

The last comment of a text need not have a line end, and a backslash that ends a text counts as if a
character followed. These are the two places where the end of a text is not like the end of a form.
-/
namespace Relocate

/-- The part of a text between two offsets. -/
def Text.slice (text : Text) (start stop : Nat) : Text := (text.drop start).take (stop - start)

/-- Layout, the last comment of which may run to the end of the text. -/
def Trailing (text : Text) : Prop :=
  ∃ lead last, text = lead ++ last ∧ Layout lead ∧
    (last = [] ∨ ∃ body, last = ';' :: body ∧ '\n' ∉ body)

/-- Layout may stand in front of trailing layout. -/
theorem Trailing.append {lead rest : Text} (layout : Layout lead) (trailing : Trailing rest) :
    Trailing (lead ++ rest) := by
  obtain ⟨more, last, rfl, inner, ended⟩ := trailing
  exact ⟨lead ++ more, last, by simp, layout.append inner, ended⟩

mutual

/-- Where skipping layout reaches the end of the text, nothing but layout has been passed. By
recursion on the text, together with the skipping of comments. -/
theorem trailing_of_skipLayout (offset : Nat) :
    (text : Text) → (skipLayout offset text).rest = [] → Trailing text
  | [], _ => ⟨[], [], rfl, .empty, .inl rfl⟩
  | c :: rest, ended => by
    rw [skipLayout] at ended
    split at ended
    · rename_i blank
      exact (trailing_of_skipLayout (offset + 1) rest ended).append (.space c [] blank .empty)
    · split at ended
      · rename_i comment
        subst comment
        obtain oneLine | ⟨body, more, rfl, oneLine, trailing⟩ :=
          trailing_of_skipComment (offset + 1) rest ended
        · exact ⟨[], ';' :: rest, rfl, .empty, .inr ⟨rest, rfl, oneLine⟩⟩
        · simpa using trailing.append (.comment body [] oneLine .empty)
      · simp at ended

/-- A comment that is skipped up to the end of the text runs to this end, or has trailing layout
behind its line. -/
theorem trailing_of_skipComment (offset : Nat) :
    (text : Text) → (skipComment offset text).rest = [] →
      '\n' ∉ text ∨ ∃ body rest, text = body ++ '\n' :: rest ∧ '\n' ∉ body ∧ Trailing rest
  | [], _ => .inl (by simp)
  | c :: rest, ended => by
    rw [skipComment] at ended
    split at ended
    · rename_i lineEnd
      subst lineEnd
      exact .inr ⟨[], rest, rfl, by simp, trailing_of_skipLayout (offset + 1) rest ended⟩
    · rename_i other
      have notEnd : '\n' ≠ c := fun equal => other equal.symm
      obtain oneLine | ⟨body, more, rfl, oneLine, trailing⟩ :=
        trailing_of_skipComment (offset + 1) rest ended
      · exact .inl (by simp [notEnd, oneLine])
      · exact .inr ⟨c :: body, more, rfl, by simp [notEnd, oneLine], trailing⟩

end

/-- A form ends in at most one character that counts although the text has ended. -/
theorem Form.overhang_le : (form : Form) → form.overhang ≤ 1
  | .token text => by
    rw [Form.overhang]
    split <;> omega
  | .annotated _ target => target.overhang_le
  | .marked _ _ target => target.overhang_le
  | .symbol _ | .keyword _ | .string _ _ | .seq _ _ => Nat.zero_le 1

/-- A form that counts a character too many ends in a backslash. By recursion on the spelling, whose
last part ends it; only a lone backslash counts too many. -/
theorem Spelling.last_of_overhang {form : Form} {own rest : Text} (spelled : Spelling form own rest)
    (exceeds : form.overhang ≠ 0) : own.getLast? = some '\\' := by
  match spelled with
  | .leaf _ _ _ written =>
    cases written with
    | atom _ _ shape => exact absurd (overhang_ofAtom shape) exceeds
    | string => exact absurd rfl exceeds
    | pattern => simp [Form.overhang] at exceeds
    | character => simp [Form.overhang] at exceeds
    | backslash => rfl
  | .seq .. => exact absurd rfl exceeds
  | .annotated _ _ lead first gap second _ _ _ _ target =>
    have last := target.last_of_overhang exceeds
    simp [List.getLast?_cons, List.getLast?_append, last]
  | .marked _ _ _ own lead first _ _ _ target =>
    have last := target.last_of_overhang exceeds
    simp [List.getLast?_append, last]

/-- The form stands in the text behind an offset, with layout in front of it. -/
def Stands (text : Text) (offset : Nat) (spanned : Spanned) : Prop :=
  ∃ lead own rest, text.drop offset = lead ++ (own ++ rest) ∧ Layout lead ∧
    Spelling spanned.form own rest ∧ spanned.start = offset + lead.length ∧
    spanned.stop = offset + lead.length + own.length + spanned.form.overhang

/-- The forms stand in the text one behind the other, from an offset on. -/
def StandFrom (text : Text) : Nat → List Spanned → Prop
  | _, [] => True
  | offset, spanned :: forms => Stands text offset spanned ∧ StandFrom text spanned.stop forms

/-- Where the last of some forms ends; without any, the offset. -/
def endOf (offset : Nat) (forms : List Spanned) : Nat :=
  forms.foldl (fun _ spanned => spanned.stop) offset

section Standing

variable {text : Text} {offset : Nat} {spanned : Spanned} {forms : List Spanned}

/-- The text of a form that stands in a text: between its offsets, up to the end of the text. The
layout, the form's own text and the rest make up the text behind the offset. -/
theorem Stands.slices (stands : Stands text offset spanned) :
    ∃ own rest, Spelling spanned.form own rest ∧ own ≠ [] ∧ offset ≤ spanned.start ∧
      Layout (text.slice offset spanned.start) ∧ text.slice spanned.start spanned.stop = own ∧
      spanned.stop = spanned.start + own.length + spanned.form.overhang ∧
      text.drop spanned.start = own ++ rest := by
  obtain ⟨lead, own, rest, split, layout, spelled, start, stop⟩ := stands
  have nonempty : own ≠ [] := by
    obtain ⟨c, run, rfl, -⟩ := spelled.starts
    simp
  have here : text.drop spanned.start = own ++ rest := by
    rw [start, ← List.drop_drop, split, List.drop_left]
  refine ⟨own, rest, spelled, nonempty, by omega, ?_, ?_, by omega, here⟩
  · rw [Text.slice, start, Nat.add_sub_cancel_left, split, List.take_left]
    exact layout
  · -- Only where nothing follows does the span reach further than the form's own text.
    rw [Text.slice, here]
    by_cases last : rest = []
    · subst last
      rw [List.append_nil, List.take_of_length_le (by omega)]
    · have length : spanned.stop - spanned.start = own.length := by
        rw [spelled.overhang last] at stop
        omega
      rw [length, List.take_left]

/-- A form that stands in a text is read from its own text. -/
theorem Stands.alone (stands : Stands text offset spanned) :
    readForm (.ofText (text.slice spanned.start spanned.stop) 0) =
      .ok (spanned.form,
        .ofText (text.slice spanned.start spanned.stop) (spanned.stop - spanned.start)) := by
  obtain ⟨own, rest, spelled, -, -, -, same, stop, -⟩ := stands.slices
  have whole : Spelling spanned.form own [] :=
    spelled.follow (fun _ => delimited_nil) (fun _ => rfl)
  rw [same]
  refine readForm_ok_iff.mpr ⟨[], own, [], by simp, .empty, whole, ?_⟩
  have behind : spanned.stop - spanned.start = own.length + spanned.form.overhang := by omega
  simp [Cursor.ofText, behind]

/-- A form ends within the text, except behind a backslash that ends the text. A form counts too
many only where nothing follows it, and then only one. -/
theorem Stands.within (stands : Stands text offset spanned) :
    if spanned.form.overhang = 0 then spanned.stop ≤ text.length
    else spanned.stop = text.length + 1 ∧ text.getLast? = some '\\' := by
  obtain ⟨own, rest, spelled, nonempty, -, -, -, stop, here⟩ := stands.slices
  have length := congrArg List.length here
  have positive := List.length_pos_iff.mpr nonempty
  rw [List.length_drop, List.length_append] at length
  split
  · omega
  · rename_i exceeds
    have nothing : rest = [] :=
      Decidable.byContradiction fun more => exceeds (spelled.overhang more)
    have once := spanned.form.overhang_le
    rw [nothing, List.length_nil] at length
    refine ⟨by omega, ?_⟩
    rw [nothing, List.append_nil] at here
    have last := spelled.last_of_overhang exceeds
    rw [← here, List.getLast?_drop] at last
    split at last
    · simp at last
    · exact last

/-- In a chain of forms, each one stands where those before it end. -/
theorem StandFrom.stands {earlier later : List Spanned}
    (chain : StandFrom text offset (earlier ++ spanned :: later)) :
    Stands text (endOf offset earlier) spanned ∧ StandFrom text spanned.stop later := by
  induction earlier generalizing offset with
  | nil => exact chain
  | cons first earlier inductionHypothesis => exact inductionHypothesis chain.2

/-- In a chain of forms, all stand behind the offset, each one before the later ones. -/
theorem StandFrom.ordered (chain : StandFrom text offset forms) :
    (∀ spanned ∈ forms, offset ≤ spanned.start) ∧
      forms.Pairwise fun earlier later => earlier.stop ≤ later.start := by
  induction forms generalizing offset with
  | nil => simp
  | cons first forms inductionHypothesis =>
    obtain ⟨own, -, -, -, behind, -, -, stop, -⟩ := chain.1.slices
    obtain ⟨later, ordered⟩ := inductionHypothesis chain.2
    refine ⟨List.forall_mem_cons.mpr ⟨behind, fun spanned member => ?_⟩, ?_⟩
    · have next := later spanned member
      omega
    · exact List.pairwise_cons.mpr ⟨later, ordered⟩

/-- Behind a form that reaches further than the text, no form stands. -/
theorem StandFrom.last (chain : StandFrom text (text.length + 1) forms) : forms = [] := by
  cases forms with
  | nil => rfl
  | cons first forms =>
    obtain ⟨lead, own, rest, split, -, spelled, -⟩ := chain.1
    obtain ⟨c, run, rfl, -⟩ := spelled.starts
    rw [List.drop_eq_nil_of_le (by omega)] at split
    simp at split

/-- No layout stands where a lexeme starts. -/
theorem Layout.eq_nil_of_starts {lead rest : Text} (layout : Layout lead)
    (starts : StartsLexeme (lead ++ rest)) : lead = [] := by
  obtain ⟨c, run, same, notSpace, notComment⟩ := starts
  cases layout with
  | empty => rfl
  | space d more blank =>
    rw [List.cons_append] at same
    rw [(List.cons.inj same).1, notSpace] at blank
    simp at blank
  | comment =>
    rw [List.cons_append] at same
    exact absurd (List.cons.inj same).1.symm notComment

/-- The next form behind an offset stands there, and the cursor is then behind it. Layout has been
skipped already, so that the reader finds its form at once. -/
theorem stands_of_readForm {form : Form} {after : Cursor}
    (more : (Cursor.ofText text offset).skipLayout.rest ≠ [])
    (read : readForm (Cursor.ofText text offset).skipLayout = .ok (form, after)) :
    Stands text offset
      ⟨form, (Cursor.ofText text offset).skipLayout.offset, after.offset⟩ ∧
      after = .ofText text after.offset := by
  have well := (Cursor.in_ofText text offset).skipLayout.1.endsWell_readForm
  rw [read] at well
  obtain ended | ⟨lead, split, layout, starts, place⟩ :=
    skipLayout_skipped offset (text.drop offset)
  · exact absurd ended more
  · change readForm (skipLayout offset (text.drop offset)) = _ at read
    change Stands text offset ⟨form, (skipLayout offset (text.drop offset)).offset, _⟩ ∧ _
    generalize skipLayout offset (text.drop offset) = here at split starts place read
    rw [place] at read
    obtain ⟨inner, own, rest, whole, leading, spelled, rfl⟩ := readForm_ok_iff.mp read
    obtain rfl := leading.eq_nil_of_starts (whole ▸ starts)
    refine ⟨⟨lead, own, rest, ?_, layout, spelled, ?_, rfl⟩, ?_⟩
    · rw [split, whole, List.nil_append]
    · rw [place]
    · rw [Cursor.ofText, ← well.1.rest_behind rfl]

/-- The forms that are listed from an offset on stand there, and if no error ends the list, only
layout is left behind them. -/
theorem Lists.standFrom {error : Option ReadError}
    (listed : Lists (.ofText text offset) forms error) :
    StandFrom text offset forms ∧ (error = none → Trailing (text.drop (endOf offset forms))) := by
  generalize same : Cursor.ofText text offset = cursor at listed
  induction listed generalizing offset with
  | ended cursor nothing =>
    subst same
    exact ⟨trivial, fun _ => trailing_of_skipLayout offset _ nothing⟩
  | failed => exact ⟨trivial, by simp⟩
  | form cursor after form forms error more read _ inductionHypothesis =>
    subst same
    obtain ⟨stands, place⟩ := stands_of_readForm more read
    obtain ⟨later, trailing⟩ := inductionHypothesis place.symm
    exact ⟨⟨stands, later⟩, trailing⟩

end Standing

/-- The forms stand in the text one behind the other with nothing but layout around them, and each
is what its own text is read as. -/
structure Tiling (text : Text) (forms : List Spanned) (error : Option ReadError) : Prop where
  nonempty : ∀ spanned ∈ forms, spanned.start < spanned.stop
  ordered : forms.Pairwise fun earlier later => earlier.stop ≤ later.start
  /-- Layout is between the start of the text and the first form, and between neighbours. -/
  gaps : ∀ earlier spanned later, forms = earlier ++ spanned :: later →
    Layout (text.slice (endOf 0 earlier) spanned.start)
  /-- If nothing failed, layout is behind the last form. -/
  behind : error = none → Trailing (text.drop (endOf 0 forms))
  /-- Only the last form can reach further than the text, by a backslash that ends the text and is a
  character literal on its own. -/
  within : ∀ spanned ∈ forms, if spanned.form.overhang = 0 then spanned.stop ≤ text.length
    else spanned.stop = text.length + 1 ∧ text.getLast? = some '\\' ∧ forms.getLast? = some spanned
  /-- A form is what is read from its own text, up to the end of it. -/
  alone : ∀ spanned ∈ forms,
    readForm (.ofText (text.slice spanned.start spanned.stop) 0) =
      .ok (spanned.form,
        .ofText (text.slice spanned.start spanned.stop) (spanned.stop - spanned.start))

/-- The forms of every text tile it. Each form of the list stands where the one before it has ended,
with layout in between; all the parts are read off this chain. -/
theorem tiling_readForms (text : Text) : Tiling text (readForms text).1 (readForms text).2 := by
  obtain ⟨chain, trailing⟩ := (lists_readForms text).standFrom
  generalize (readForms text).1 = forms at chain trailing
  have stands (spanned : Spanned) (member : spanned ∈ forms) :
      ∃ earlier later, forms = earlier ++ spanned :: later ∧
        Stands text (endOf 0 earlier) spanned ∧ StandFrom text spanned.stop later := by
    obtain ⟨earlier, later, rfl⟩ := List.append_of_mem member
    exact ⟨earlier, later, rfl, chain.stands⟩
  refine ⟨fun spanned member => ?_, chain.ordered.2, fun earlier spanned later same => ?_, trailing,
    fun spanned member => ?_, fun spanned member => ?_⟩
  · obtain ⟨earlier, later, -, here, -⟩ := stands spanned member
    obtain ⟨own, -, -, nonempty, -, -, -, stop, -⟩ := here.slices
    have positive := List.length_pos_iff.mpr nonempty
    omega
  · subst same
    obtain ⟨-, -, -, -, -, layout, -⟩ := chain.stands.1.slices
    exact layout
  · obtain ⟨earlier, later, same, here, rest⟩ := stands spanned member
    have within := here.within
    split at within
    · rename_i inside
      rwa [if_pos inside]
    · rename_i exceeds
      rw [within.1] at rest
      rw [if_neg exceeds, same, rest.last]
      exact ⟨within.1, within.2, by simp⟩
  · obtain ⟨earlier, later, -, here, -⟩ := stands spanned member
    exact here.alone

end Relocate
