import Relocate.Proofs.BodyReferences

/-!
# Renaming in a body from slash to slash

A reference ends at a slash and holds no other one, so between two slashes there is room for one
reference at most, at the end of the text between them. Renaming looks at these texts one by one: it
replaces the name that one of them ends in, or leaves it (`Respelled`). What is put in has no slash,
so that a second renaming meets the same slashes.

Two laws follow by induction from slash to slash. A renaming is undone by the one back if the new
name was not referred to before (`renameInBody_undone`). If no spelling of one name is the end of a
spelling of the other, no reference to the old name is left (`renameInBody_exhausts`).
-/
namespace Relocate

/-- The body holds the name of the module, plain or flattened, with a slash behind it. -/
def RefersTo (body module : Text) : Prop :=
  module ++ ['/'] <:+: body ∨ ModuleName.flatten module ++ ['/'] <:+: body

instance (body module : Text) : Decidable (RefersTo body module) :=
  inferInstanceAs (Decidable (_ ∨ _))

/-- The text ends in the name of the module, plain or flattened. -/
def EndsIn (text module : Text) : Prop :=
  ∃ spelling, ModuleName.HasSpelling module spelling ∧ spelling <:+ text

section Occurrences

variable {module piece rest spelling : Text}

/-- A body refers to a module if one of the two spellings occurs in it with a slash behind it. -/
theorem refersTo_iff {body : Text} : RefersTo body module ↔
    ∃ spelling, ModuleName.HasSpelling module spelling ∧ spelling ++ ['/'] <:+: body := by
  simp [RefersTo, ModuleName.HasSpelling, or_and_right, exists_or]

/-- A text without slashes refers to nothing. -/
theorem not_refersTo_clean (clean : '/' ∉ piece) : ¬ RefersTo piece module := by
  rw [refersTo_iff]
  rintro ⟨spelling, -, held⟩
  exact clean (held.subset (by simp))

/-- A name stands in front of the first slash or behind it. -/
theorem infix_slash (clean : '/' ∉ piece) (nameClean : '/' ∉ spelling) :
    spelling ++ ['/'] <:+: piece ++ '/' :: rest ↔
      spelling <:+ piece ∨ spelling ++ ['/'] <:+: rest := by
  constructor
  · rintro ⟨before, after, same⟩
    rw [← List.append_assoc, List.append_assoc _ ['/'] after, List.singleton_append] at same
    obtain ⟨rfl, -⟩ | ⟨more, -, rfl⟩ := reference_cases clean nameClean same.symm
    · exact .inl (List.suffix_append before spelling)
    · exact .inr ⟨more, after, by simp⟩
  · rintro (⟨before, rfl⟩ | later)
    · exact ⟨before, rest, by simp⟩
    · exact later.trans ((List.suffix_cons '/' rest).trans (List.suffix_append piece _)).isInfix

/-- What is in front of the first slash refers to a module if it ends in one of its spellings. The
rest is a matter of its own, because no spelling has a slash. -/
theorem refersTo_slash (moduleClean : '/' ∉ module) (clean : '/' ∉ piece) :
    RefersTo (piece ++ '/' :: rest) module ↔ EndsIn piece module ∨ RefersTo rest module := by
  rw [refersTo_iff, refersTo_iff, EndsIn, ← exists_or]
  refine exists_congr fun spelling => ?_
  rw [← and_or_left]
  exact and_congr_right fun spells => infix_slash clean (spells.clean moduleClean)

end Occurrences

/-- A body and the same body after a renaming, from slash to slash. -/
inductive Respelled (old new : Text) : Text → Text → Prop where
  /-- A text without slashes has no reference in it. -/
  | clean {piece : Text} (clean : '/' ∉ piece) : Respelled old new piece piece
  /-- A text in front of a slash that does not end in the old name stays. -/
  | plain {piece rest renamed : Text} (clean : '/' ∉ piece) (missing : ¬ EndsIn piece old)
      (later : Respelled old new rest renamed) :
      Respelled old new (piece ++ '/' :: rest) (piece ++ '/' :: renamed)
  /-- The name that a text ends in is spelled anew. -/
  | reference {start spelling rest renamed : Text} (clean : '/' ∉ start)
      (spells : ModuleName.HasSpelling old spelling) (later : Respelled old new rest renamed) :
      Respelled old new (start ++ spelling ++ '/' :: rest)
        (start ++ renamedSpelling old new spelling ++ '/' :: renamed)

section Steps

variable {old new piece rest spelling : Text}

/-- A text without slashes stays as it is. -/
theorem renameInBody_clean (clean : '/' ∉ piece) : renameInBody old new piece = piece := by
  rw [renameInBody, qualifiers_eq, substitute_clean clean]

/-- What is in front of the first slash stays if it does not end in the old name, and renaming goes
on behind the slash. -/
theorem renameInBody_plain (oldClean : '/' ∉ old) (clean : '/' ∉ piece)
    (missing : ¬ EndsIn piece old) :
    renameInBody old new (piece ++ '/' :: rest) = piece ++ '/' :: renameInBody old new rest := by
  rw [renameInBody, qualifiers_eq, substitute_plain clean
    (fun row member => (spells_of_mem member).clean oldClean)
    fun row member ends => missing ⟨row.1, spells_of_mem member, ends⟩, ← qualifiers_eq,
    ← renameInBody]

/-- A spelling of the old name in front of the first slash is replaced, and renaming goes on behind
the slash. -/
theorem renameInBody_reference {start : Text} (oldClean : '/' ∉ old) (clean : '/' ∉ start)
    (spells : ModuleName.HasSpelling old spelling) :
    renameInBody old new (start ++ spelling ++ '/' :: rest) =
      start ++ renamedSpelling old new spelling ++ '/' :: renameInBody old new rest := by
  rw [renameInBody, qualifiers_eq,
    substitute_reference (spelling, renamedSpelling old new spelling) clean
      (fun row member => (spells_of_mem member).clean oldClean)
      (fun row member => (spells_of_mem member).length) (find_spellings spells),
    ← qualifiers_eq, ← renameInBody]

/-- Renaming goes from slash to slash. The text behind the first slash is the shorter one. -/
theorem respelled_renameInBody (oldClean : '/' ∉ old) (new body : Text) :
    Respelled old new body (renameInBody old new body) := by
  by_cases held : '/' ∈ body
  · obtain ⟨piece, rest, same, clean⟩ := List.eq_append_cons_of_mem held
    have later := respelled_renameInBody oldClean new rest
    rw [same]
    by_cases ends : EndsIn piece old
    · obtain ⟨spelling, spells, start, rfl⟩ := ends
      have startClean : '/' ∉ start := fun member => clean (List.mem_append_left _ member)
      rw [renameInBody_reference oldClean startClean spells]
      exact .reference startClean spells later
    · rw [renameInBody_plain oldClean clean ends]
      exact .plain clean ends later
  · rw [renameInBody_clean held]
    exact .clean held
termination_by body.length
decreasing_by
  rw [same, List.length_append, List.length_cons]
  omega

/-- What is put in spells the new name. -/
theorem spells_renamedSpelling (old new spelling : Text) :
    ModuleName.HasSpelling new (renamedSpelling old new spelling) := by
  rw [renamedSpelling]
  split
  · exact .inr rfl
  · exact .inl rfl

/-- The spelling comes back, unless two spellings have become one. -/
theorem renamedSpelling_back (hyphens : '-' ∈ new ∨ '-' ∉ old)
    (spells : ModuleName.HasSpelling old spelling) :
    renamedSpelling new old (renamedSpelling old new spelling) = spelling := by
  by_cases flattened : spelling = ModuleName.flatten old
  · rw [renamedSpelling, renamedSpelling, if_pos flattened, if_pos rfl, flattened]
  · obtain rfl := spells.resolve_right flattened
    have hyphen : '-' ∈ new := hyphens.resolve_right fun single =>
      flattened (flatten_eq_self_iff.mpr single).symm
    have apart : new ≠ ModuleName.flatten new := fun same => flatten_eq_self_iff.mp same.symm hyphen
    rw [renamedSpelling, renamedSpelling, if_neg flattened, if_neg apart]

/-- What is put in and the text in front of it have no slash. -/
theorem renamed_clean {start : Text} (newClean : '/' ∉ new) (clean : '/' ∉ start) :
    '/' ∉ start ++ renamedSpelling old new spelling := by
  rw [List.mem_append, not_or]
  exact ⟨clean, (spells_renamedSpelling old new spelling).clean newClean⟩

/-- A piece of the body before the renaming has no slash either. -/
theorem reference_clean {start : Text} (oldClean : '/' ∉ old) (clean : '/' ∉ start)
    (spells : ModuleName.HasSpelling old spelling) : '/' ∉ start ++ spelling := by
  rw [List.mem_append, not_or]
  exact ⟨clean, spells.clean oldClean⟩

end Steps

section Laws

variable {old new body renamed : Text}

/-- Without references nothing is renamed. -/
theorem Respelled.eq_of_not_refersTo (step : Respelled old new body renamed) (oldClean : '/' ∉ old)
    (missing : ¬ RefersTo body old) : renamed = body := by
  induction step with
  | clean => rfl
  | plain clean _ _ inductionHypothesis =>
    rw [refersTo_slash oldClean clean, not_or] at missing
    rw [inductionHypothesis missing.2]
  | @reference start spelling _ _ clean spells _ _ =>
    rw [refersTo_slash oldClean (reference_clean oldClean clean spells), not_or] at missing
    exact absurd ⟨spelling, spells, List.suffix_append start spelling⟩ missing.1

/-- Each spelling is put back where it was, and nothing else is taken for the new name. -/
theorem Respelled.back (step : Respelled old new body renamed) (oldClean : '/' ∉ old)
    (newClean : '/' ∉ new) (hyphens : '-' ∈ new ∨ '-' ∉ old) (fresh : ¬ RefersTo body new) :
    renameInBody new old renamed = body := by
  induction step with
  | clean clean => exact renameInBody_clean clean
  | plain clean _ _ inductionHypothesis =>
    rw [refersTo_slash newClean clean, not_or] at fresh
    rw [renameInBody_plain newClean clean fresh.1, inductionHypothesis fresh.2]
  | @reference start spelling _ _ clean spells _ inductionHypothesis =>
    rw [refersTo_slash newClean (reference_clean oldClean clean spells), not_or] at fresh
    rw [renameInBody_reference newClean clean (spells_renamedSpelling old new spelling),
      renamedSpelling_back hyphens spells, inductionHypothesis fresh.2]

/-- If no spelling of one name is the end of a spelling of the other, no old name is left: a text
that ends in spellings of both would make one the end of the other. -/
theorem Respelled.not_refersTo (step : Respelled old new body renamed) (oldClean : '/' ∉ old)
    (newClean : '/' ∉ new)
    (apart : ∀ spelling other, ModuleName.HasSpelling old spelling →
      ModuleName.HasSpelling new other → ¬ spelling <:+ other ∧ ¬ other <:+ spelling) :
    ¬ RefersTo renamed old := by
  induction step with
  | clean clean => exact not_refersTo_clean clean
  | plain clean missing _ inductionHypothesis =>
    rw [refersTo_slash oldClean clean, not_or]
    exact ⟨missing, inductionHypothesis⟩
  | @reference start spelling _ _ clean spells _ inductionHypothesis =>
    rw [refersTo_slash oldClean (renamed_clean newClean clean), not_or]
    refine ⟨?_, inductionHypothesis⟩
    rintro ⟨other, otherSpells, ending⟩
    have distinct := apart other _ otherSpells (spells_renamedSpelling old new spelling)
    exact (List.suffix_or_suffix_of_suffix ending (List.suffix_append start _)).elim
      distinct.1 distinct.2

/-- The references to the old name become references to the new one, and no others arise. -/
theorem Respelled.refersTo_new_iff (step : Respelled old new body renamed) (oldClean : '/' ∉ old)
    (newClean : '/' ∉ new) : RefersTo renamed new ↔ RefersTo body old ∨ RefersTo body new := by
  induction step with
  | clean clean => simp [not_refersTo_clean clean]
  | plain clean missing _ inductionHypothesis =>
    rw [refersTo_slash newClean clean, refersTo_slash oldClean clean,
      refersTo_slash newClean clean, inductionHypothesis, or_iff_right missing, or_left_comm]
  | @reference start spelling _ _ clean spells _ _ =>
    rw [refersTo_slash newClean (renamed_clean newClean clean),
      refersTo_slash oldClean (reference_clean oldClean clean spells)]
    exact iff_of_true
      (.inl ⟨_, spells_renamedSpelling old new spelling, List.suffix_append start _⟩)
      (.inl (.inl ⟨spelling, spells, List.suffix_append start spelling⟩))

end Laws

/-- A renaming is undone by the one back, if the body did not refer to the new name before and the
new name has two spellings or the old name one. A renamed body is related to the body piece by piece
(`Respelled`), and going back is by induction on this relation. -/
theorem renameInBody_undone {old new body : Text} (oldClean : '/' ∉ old) (newClean : '/' ∉ new)
    (hyphens : '-' ∈ new ∨ '-' ∉ old) (fresh : ¬ RefersTo body new) :
    renameInBody new old (renameInBody old new body) = body :=
  (respelled_renameInBody oldClean new body).back oldClean newClean hyphens fresh

/-- Both spellings of the old name, one of them behind another letter and next to a reference, and a
new name that ends in the old one. -/
theorem renameInBody_undone_nested :
    ¬ RefersTo "(a-b/f xa_b/a-b/g a-b)".toList "c-a-b".toList ∧
      renameInBody "a-b".toList "c-a-b".toList "(a-b/f xa_b/a-b/g a-b)".toList =
        "(c-a-b/f xc_a_b/c-a-b/g a-b)".toList ∧
      renameInBody "c-a-b".toList "a-b".toList
          (renameInBody "a-b".toList "c-a-b".toList "(a-b/f xa_b/a-b/g a-b)".toList) =
        "(a-b/f xa_b/a-b/g a-b)".toList := by
  have fresh : ¬ RefersTo "(a-b/f xa_b/a-b/g a-b)".toList "c-a-b".toList := by decide +kernel
  exact ⟨fresh, by decide +kernel,
    renameInBody_undone (by decide) (by decide) (.inl (by decide)) fresh⟩

/-- No reference to the old name is left if no spelling of one name is the end of a spelling of the
other, and a second renaming changes nothing. The references have become references to the new name.
All three are read off the relation between a body and the renamed one, `Respelled`, by induction on
it. -/
theorem renameInBody_exhausts {old new : Text} (oldClean : '/' ∉ old) (newClean : '/' ∉ new)
    (apart : ∀ spelling other, ModuleName.HasSpelling old spelling →
      ModuleName.HasSpelling new other → ¬ spelling <:+ other ∧ ¬ other <:+ spelling)
    (body : Text) :
    ¬ RefersTo (renameInBody old new body) old ∧
      renameInBody old new (renameInBody old new body) = renameInBody old new body ∧
      (RefersTo (renameInBody old new body) new ↔ RefersTo body old ∨ RefersTo body new) := by
  have first := respelled_renameInBody oldClean new body
  have second := respelled_renameInBody oldClean new (renameInBody old new body)
  have exhausted := first.not_refersTo oldClean newClean apart
  exact ⟨exhausted, second.eq_of_not_refersTo oldClean exhausted,
    first.refersTo_new_iff oldClean newClean⟩

/-- References right behind each other in both spellings, and the old name without a slash, which is
no reference. -/
theorem renameInBody_exhausts_adjacent :
    renameInBody "l-b".toList "n-m".toList "(l-b/l_b/l-b/f l-b)".toList =
        "(n-m/n_m/n-m/f l-b)".toList ∧
      ¬ RefersTo (renameInBody "l-b".toList "n-m".toList "(l-b/l_b/l-b/f l-b)".toList)
        "l-b".toList ∧
      renameInBody "l-b".toList "n-m".toList
          (renameInBody "l-b".toList "n-m".toList "(l-b/l_b/l-b/f l-b)".toList) =
        renameInBody "l-b".toList "n-m".toList "(l-b/l_b/l-b/f l-b)".toList := by
  have apart : ∀ spelling other, ModuleName.HasSpelling "l-b".toList spelling →
      ModuleName.HasSpelling "n-m".toList other →
      ¬ spelling <:+ other ∧ ¬ other <:+ spelling := by
    rintro spelling other (rfl | rfl) (rfl | rfl) <;> decide +kernel
  obtain ⟨exhausted, again, -⟩ := @renameInBody_exhausts "l-b".toList "n-m".toList (by decide)
    (by decide) apart "(l-b/l_b/l-b/f l-b)".toList
  exact ⟨by decide +kernel, exhausted, again⟩

end Relocate
