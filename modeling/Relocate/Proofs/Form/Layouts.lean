import Relocate.Proofs.Form.Writing

/-!
# Forms under any layout

On a single line a form has one space between neighbouring items and behind metadata, and nothing
inside its brackets. `LaidOut` relates a form to its other texts: those with any layout in place of
such a space, and with layout behind opening and in front of closing brackets. Where a mark meets
its form nothing may be put, since the two are written close.

`readForm_laidOut` says that the layout does not matter: a render-stable form that has been read is
read from each of these texts, up to its end.
-/
namespace Relocate

mutual

/-- A form and a text of it. -/
inductive LaidOut : Form → Text → Prop where
  | leaf (form : Form) (whole : form.isLeaf = true) : LaidOut form form.render
  | seq (bracket : Bracket) (items : List Form) (lead body trail : Text) (leading : Layout lead)
      (inside : ItemsLaidOut items body) (trailing : Layout trail) :
      LaidOut (.seq bracket items)
        (bracket.opening ++ (lead ++ (body ++ trail) ++ [bracket.closing]))
  | annotated (note target : Form) (first gap second : Text) (noted : LaidOut note first)
      (between : Layout gap) (apart : gap ≠ []) (laid : LaidOut target second) :
      LaidOut (.annotated note target) ('^' :: (first ++ (gap ++ second)))
  | marked (mark gap : Text) (target : Form) (text : Text) (laid : LaidOut target text) :
      LaidOut (.marked mark gap target) (mark ++ gap ++ text)

/-- The items of a sequence and a text of them, from the first one to the last. -/
inductive ItemsLaidOut : List Form → Text → Prop where
  | none : ItemsLaidOut [] []
  | last (form : Form) (own : Text) (laid : LaidOut form own) : ItemsLaidOut [form] own
  | more (form next : Form) (forms : List Form) (own gap body : Text) (laid : LaidOut form own)
      (between : Layout gap) (apart : gap ≠ []) (others : ItemsLaidOut (next :: forms) body) :
      ItemsLaidOut (form :: next :: forms) (own ++ (gap ++ body))

end

mutual

/-- The single line is one of the texts of a form. -/
theorem laidOut_render : (form : Form) → LaidOut form form.render
  | .symbol name => .leaf (.symbol name) rfl
  | .keyword name => .leaf (.keyword name) rfl
  | .string value raw => .leaf (.string value raw) rfl
  | .token text => .leaf (.token text) rfl
  | .seq bracket items => by
    simpa [Form.render] using
      LaidOut.seq bracket items [] _ [] .empty (itemsLaidOut_renderItems items) .empty
  | .annotated note target => by
    simpa [Form.render] using LaidOut.annotated note target _ [' '] _ (laidOut_render note)
      (.space ' ' [] (by decide) .empty) (by simp) (laidOut_render target)
  | .marked mark gap target => .marked mark gap target _ (laidOut_render target)

/-- What items are rendered as is one of their layouts, with single spaces between them. -/
theorem itemsLaidOut_renderItems : (forms : List Form) → ItemsLaidOut forms (Form.renderItems forms)
  | [] => .none
  | [form] => .last form _ (laidOut_render form)
  | form :: next :: forms => by
    simpa [Form.renderItems] using ItemsLaidOut.more form next forms _ [' '] _ (laidOut_render form)
      (.space ' ' [] (by decide) .empty) (by simp) (itemsLaidOut_renderItems (next :: forms))

end

/-- Every text of a form starts with the same character. -/
theorem LaidOut.head {form : Form} {text : Text} (laid : LaidOut form text) :
    text.head? = form.render.head? := by
  match laid with
  | .leaf _ _ => rfl
  | .seq bracket _ _ _ _ _ _ _ => cases bracket <;> rfl
  | .annotated .. => rfl
  | .marked mark gap target _ inner =>
    simp [Form.render, inner.head]

/-- Whether a text of a form starts with a bracket or a quote does not depend on the layout. -/
theorem LaidOut.opensGroup {form : Form} {text : Text} (laid : LaidOut form text) :
    opensGroup text = opensGroup form.render := by
  have same := laid.head
  cases text with
  | nil =>
    cases rendered : form.render with
    | nil => rfl
    | cons c run => simp [rendered] at same
  | cons c run =>
    cases rendered : form.render with
    | nil => simp [rendered] at same
    | cons d rest =>
      obtain rfl : c = d := by simpa [rendered] using same
      rfl

/-- A form without parts may be followed by whatever ends an atom, or by nothing. -/
theorem Written.leaf_ended {form : Form} {own rest other : Text}
    (written : Written (.leaf form) own rest) (closed : form.overhang = 0 ∨ other = [])
    (delimited : Delimited other) : Written (.leaf form) own other := by
  obtain closed | rfl := closed
  · exact written.leaf_delimited closed delimited
  · exact written.leaf_follow (fun _ => delimited) fun _ => rfl

/-- Where marks are apart, no mark is joined with the form behind it. -/
theorem Form.joinMark_of_marksApart {mark gap : Text} {target : Form}
    (apart : (Form.marked mark gap target).marksApart = true) :
    joinMark mark gap target = .marked mark gap target := by
  have whole := merged_of_marksApart (.marked mark gap target) apart
  simp only [marksApart, Bool.and_eq_true] at apart
  rwa [merged, merged_of_marksApart target apart.2] at whole

mutual

/-- A form that has been read is spelled by each of its texts. The proof follows the text; what has
been read is needed for the leaves and for the marks, whose own texts are the same in every
layout. -/
theorem LaidOut.spelling {form : Form} {text own rest other : Text} (laid : LaidOut form text)
    (spelled : Spelling form own rest) (apart : form.marksApart = true)
    (tags : form.tagsApply = true) (closed : form.overhang = 0 ∨ other = [])
    (delimited : Delimited other) : Spelling form text other := by
  match laid with
  | .leaf _ whole =>
    have written := spelled.leaf_inv whole
    rw [written.leaf_render.1]
    exact .leaf _ _ _ (written.leaf_ended closed delimited)
  | .seq bracket items lead body trail leading inside trailing =>
    obtain ⟨held, -, read⟩ := spelled.seq_inv
    have spelledItems := inside.items read (by simp) apart tags trailing
      (delimited_cons.mpr (isTerminator_closing bracket) : Delimited (bracket.closing :: other))
    exact .seq bracket items _ other (spelledItems.lead leading)
  | .annotated note target first gap second noted between separate laidTarget =>
    obtain ⟨-, _, _, _, -, -, readNote, -, readTarget⟩ := spelled.annotated_inv
    simp only [Form.marksApart, Form.tagsApply, Bool.and_eq_true] at apart tags
    obtain ⟨c, run, rfl, -⟩ := readTarget.starts
    have spelledNote := noted.spelling readNote apart.1 tags.1
      (.inl (readNote.overhang (by simp))) (between.delimited separate (second ++ other))
    have spelledTarget := laidTarget.spelling readTarget apart.2 tags.2 closed delimited
    exact .annotated note target [] first gap second other .empty spelledNote between spelledTarget
  | .marked mark gap target inner laidTarget =>
    obtain ⟨_, _, _, -, written, between, readTarget⟩ := spelled.marked_inv
    have joined := Form.joinMark_of_marksApart apart
    simp only [Form.marksApart, Form.tagsApply, Bool.and_eq_true, Bool.or_eq_true,
      Bool.not_eq_true'] at apart tags
    have spelledTarget := laidTarget.spelling readTarget apart.2 tags.2 closed delimited
    rw [← joined]
    refine spelling_joinMark written spelledTarget ?_ ?_
    · rintro rfl
      have opened := written.function_inv between readTarget.starts
      obtain ⟨items, rfl⟩ := readTarget.eq_of_head.2 opened
      rw [laidTarget.head]
      rfl
    · intro close
      rw [laidTarget.opensGroup]
      simpa [close] using tags.1

/-- Items that have been read are spelled by each of their texts. By recursion on the layout: behind
each item stands a gap or what follows the items, and neither continues it. -/
theorem ItemsLaidOut.items {items : List Form} {text trail body rest other : Text}
    (laid : ItemsLaidOut items text) (read : Items items body rest) (more : rest ≠ [])
    (apart : Form.marksApartAll items = true) (tags : Form.tagsApplyAll items = true)
    (trailing : Layout trail) (delimited : Delimited other) :
    Items items (text ++ trail) other := by
  match laid with
  | .none => exact .none trail other trailing
  | .last form own laidForm =>
    cases read with
    | some _ _ _ _ held _ _ readForm =>
      simp only [Form.marksApartAll, Form.tagsApplyAll, Bool.and_eq_true] at apart tags
      have closed := readForm.overhang (by simp [more])
      have ended : Delimited (trail ++ other) := by
        by_cases empty : trail = []
        · rwa [empty]
        · exact trailing.delimited empty other
      have spelled := laidForm.spelling readForm apart.1 tags.1 (.inl closed) ended
      exact .some form [] [] own trail other .empty spelled (.none trail other trailing)
  | .more form next forms own gap text laidForm between separate laidOthers =>
    cases read with
    | some _ _ _ _ held _ _ readForm readOthers =>
      rw [Form.marksApartAll, Bool.and_eq_true] at apart
      rw [Form.tagsApplyAll, Bool.and_eq_true] at tags
      have closed := readForm.overhang (by simp [more])
      have spelled := laidForm.spelling readForm apart.1 tags.1 (.inl closed)
        (between.delimited separate (text ++ trail ++ other))
      have others := laidOthers.items readOthers more apart.2 tags.2 trailing delimited
      have split : own ++ (gap ++ text) ++ trail = own ++ (gap ++ (text ++ trail)) := by simp
      rw [split]
      exact .some form (next :: forms) [] own _ other .empty (by simpa using spelled)
        (others.lead between)

end

/-- A render-stable form that has been read is read from each of its texts, the single line among
them, and nothing of the text is left. A form that has been read is spelled by some text. From this
spelling and the layout one for the layout is made, and every spelling is read. -/
theorem readForm_laidOut {text : Text} {form : Form} {after : Cursor}
    (read : readForm (Cursor.ofText text 0) = .ok (form, after))
    (stable : form.renderStable = true) :
    LaidOut form form.render ∧ ∀ layout, LaidOut form layout →
      ∃ stop, readForm (Cursor.ofText layout 0) = .ok (form, stop) ∧ stop.atEnd = true ∧
        stop.position = layout.length + form.overhang := by
  refine ⟨laidOut_render form, fun layout laid => ?_⟩
  obtain ⟨-, own, rest, -, -, spelled, -⟩ := readForm_ok_iff.mp read
  simp only [Form.renderStable, Bool.and_eq_true] at stable
  have whole := laid.spelling spelled stable.1 stable.2 (.inr rfl) delimited_nil
  refine ⟨⟨0, 0 + 0 + layout.length + form.overhang, []⟩, ?_, rfl, ?_⟩
  · exact readForm_ok_iff.mpr ⟨[], layout, [], by simp, .empty, whole, rfl⟩
  · simp [Cursor.position]

/-- A comment ends metadata, and a character literal takes the semicolon behind it. -/
theorem readForm_laidOut_commented :
    ∃ form after stop, readForm (Cursor.ofText "(^:m a [\\; b])".toList 0) = .ok (form, after) ∧
      form.renderStable = true ∧
      readForm (Cursor.ofText "( ^:m;(\na,[\\;\t b] )".toList 0) = .ok (form, stop) ∧
      stop.atEnd = true := by
  have noted : LaidOut (.annotated (.keyword ['m']) (.symbol ['a'])) "^:m;(\na".toList :=
    .annotated _ _ [':', 'm'] [';', '(', '\n'] ['a'] (.leaf (.keyword ['m']) rfl)
      (.comment ['('] [] (by decide) .empty) (by decide) (.leaf (.symbol ['a']) rfl)
  have inner : LaidOut (.seq .vector [.token ['\\', ';'], .symbol ['b']]) "[\\;\t b]".toList :=
    .seq .vector _ [] ['\\', ';', '\t', ' ', 'b'] [] .empty
      (.more _ _ [] ['\\', ';'] ['\t', ' '] ['b'] (.leaf (.token ['\\', ';']) rfl)
        (.space '\t' _ (by decide) (.space ' ' _ (by decide) .empty)) (by decide)
        (.last _ _ (.leaf (.symbol ['b']) rfl))) .empty
  have laid : LaidOut (.seq .list [.annotated (.keyword ['m']) (.symbol ['a']),
      .seq .vector [.token ['\\', ';'], .symbol ['b']]]) "( ^:m;(\na,[\\;\t b] )".toList :=
    .seq .list _ [' '] _ [' '] (.space ' ' _ (by decide) .empty)
      (.more _ _ [] _ [','] _ noted (.space ',' _ (by decide) .empty) (by decide)
        (.last _ _ inner))
      (.space ' ' _ (by decide) .empty)
  have read : readForm (Cursor.ofText "(^:m a [\\; b])".toList 0) =
      .ok (.seq .list [.annotated (.keyword ['m']) (.symbol ['a']),
        .seq .vector [.token ['\\', ';'], .symbol ['b']]],
        Cursor.ofText "(^:m a [\\; b])".toList 14) := by
    decide +kernel
  obtain ⟨stop, again, ended, -⟩ := (readForm_laidOut read (by decide +kernel)).2 _ laid
  exact ⟨_, _, stop, read, by decide +kernel, again, ended⟩

end Relocate
