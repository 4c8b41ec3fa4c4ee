import Relocate.Proofs.Declaration.References

/-!
# Declarations that are written again and again

A declaration that can be written is read back as one that can be written: `Declaration.Sound` holds
of what is read back if it held of what was written. So a text in which a module has been renamed
can have another one renamed, any number of times.
-/
namespace Relocate

namespace Form

/-- A mark that is joined with the one behind it is no tag. By cases on whether the two are joined;
those that may be start with `~` or `#?`. -/
theorem tagsApply_joinMark {mark gap : Text} {target : Form}
    (applied : Text.startsWith ['#', ':'] mark = true → opensGroup target.render = true)
    (tags : target.tagsApply = true) : (joinMark mark gap target).tagsApply = true := by
  have apart : (Form.marked mark gap target).tagsApply = true := by
    simp only [tagsApply, tags, Bool.and_true, Bool.or_eq_true, Bool.not_eq_true']
    by_cases tag : Text.startsWith ['#', ':'] mark = true
    · exact .inr (applied tag)
    · exact .inl (by simpa using tag)
  unfold joinMark
  split
  · rename_i joins
    simp only [Bool.and_eq_true, Bool.or_eq_true, decide_eq_true_eq] at joins
    split
    · rename_i inner rest target
      split
      · rename_i deref
        simp only [tagsApply, Bool.and_eq_true] at tags ⊢
        refine ⟨?_, tags.2⟩
        obtain ⟨rfl | rfl, -⟩ := joins <;> rw [deref] <;> rfl
      · exact apart
    · exact apart
  · exact apart

mutual

/-- Joining marks leaves every tag close to what it may be written to. -/
theorem tagsApply_merged : (form : Form) → form.tagsApply = true → form.merged.tagsApply = true
  | .symbol _, tags | .keyword _, tags | .string _ _, tags | .token _, tags => tags
  | .seq bracket items, tags => tagsApplyAll_mergedAll items tags
  | .annotated note target, tags => by
    simp only [tagsApply, Bool.and_eq_true, merged] at tags ⊢
    exact ⟨tagsApply_merged note tags.1, tagsApply_merged target tags.2⟩
  | .marked mark gap target, tags => by
    simp only [tagsApply, Bool.and_eq_true, Bool.or_eq_true, Bool.not_eq_true'] at tags
    rw [merged]
    refine tagsApply_joinMark (fun tag => ?_) (tagsApply_merged target tags.2)
    rw [render_merged]
    simpa [tag] using tags.1

/-- In items with merged marks the tags still apply to sequences. -/
theorem tagsApplyAll_mergedAll :
    (forms : List Form) → tagsApplyAll forms = true → tagsApplyAll (mergedAll forms) = true
  | [], _ => rfl
  | form :: forms, tags => by
    simp only [tagsApplyAll, Bool.and_eq_true, mergedAll] at tags ⊢
    exact ⟨tagsApply_merged form tags.1, tagsApplyAll_mergedAll forms tags.2⟩

end

/-- What has been read can be read with its marks joined. -/
theorem Known.merged {form : Form} (known : form.Known) : form.merged.Known :=
  .of_spelling (known.spells [' '] (delimited_cons.mpr (by decide))) (by simp)
    (tagsApply_merged form known.tags)

end Form

/-- A requirement is read back as one that can be written. -/
theorem Requirement.Sound.readBack {requirement : Requirement} (sound : requirement.Sound) :
    requirement.merged.settled.Sound where
  target := sound.target
  nickname := sound.nickname
  referred := by
    intro names listed
    rw [settled] at listed
    split at listed
    · simp at listed
    · exact sound.referred names listed
  options := by
    intro option member
    obtain ⟨before, inside, rfl⟩ := List.mem_map.mp member
    obtain ⟨key, same, shape, known, other⟩ := sound.options before inside
    exact ⟨key, same, shape, known.merged, (isUnderstood_merged key before.2).trans other⟩
  bare := by
    intro bare
    rw [sound.bare bare]
    rfl

/-- An entry that has been read back is sound. -/
theorem Entry.Sound.readBack {entry : Entry} (sound : entry.Sound) :
    entry.merged.settled.Sound := by
  cases entry with
  | requirement required => exact Requirement.Sound.readBack sound
  | verbatim form =>
    obtain ⟨known, other⟩ := sound
    refine ⟨known.merged, ?_⟩
    rw [libspec?_merged, other]
    rfl

/-- Dotted classes are gathered as dotted classes. A gathered class is what a line is about, or the
package of a line with a simple name behind it. -/
theorem isDotted_of_mem_gathered {classes : List Text}
    (dotted : ∀ name ∈ classes, isDotted name = true) :
    ∀ name ∈ gathered classes, isDotted name = true := by
  intro name member
  obtain ⟨head, listed, inside⟩ := List.mem_flatMap.mp member
  have headDotted := isDotted_of_mem_importHeads dotted [] head listed
  rw [importGroup] at inside
  split at inside
  · rw [List.mem_singleton.mp inside]
    exact headDotted
  · obtain ⟨simple, named, rfl⟩ := List.mem_map.mp inside
    obtain ⟨before, held, cut⟩ := mem_classesOf.mp named
    have absent := (Text.splitLast?_eq_some_iff.mp cut).2
    rw [isDotted_append, headDotted, isDotted_of_not_mem absent,
      (parts_of_isDotted (dotted before held) cut).2]
    rfl

/-- A section that has been read back is sound. Reading back regroups the imported classes, which
changes none of them. -/
theorem Section.Sound.readBack {part : Section} (sound : part.Sound) :
    part.merged.readBack.Sound := by
  cases part with
  | references keyword entries =>
    refine ⟨sound.1, fun entry member => ?_⟩
    obtain ⟨joined, held, rfl⟩ := List.mem_map.mp member
    obtain ⟨before, inside, rfl⟩ := List.mem_map.mp held
    exact (sound.2 before inside).readBack
  | imports classes extras =>
    refine ⟨isDotted_of_mem_gathered sound.1, fun extra member => ?_⟩
    obtain ⟨before, inside, rfl⟩ := List.mem_map.mp member
    obtain ⟨known, other⟩ := sound.2 before inside
    exact ⟨known.merged, (importedClasses?_merged before).trans other⟩
  | verbatim form =>
    obtain ⟨known, kept⟩ := sound
    refine ⟨known.merged, ?_⟩
    rw [Section.ofForm_merged, kept]
    rfl

/-- A section is read back as one of its kind. -/
@[simp] theorem Section.isPreamble_readBack (part : Section) :
    part.merged.readBack.isPreamble = part.isPreamble := by
  cases part with
  | references keyword entries => rfl
  | imports classes extras => rfl
  | verbatim form => exact form.isPreamble_merged

/-- A declaration that can be written is read back as one that can be written. Field by field, as
each part is read back as a sound one. -/
theorem Declaration.Sound.readBack {declaration : Declaration} (sound : declaration.Sound) :
    declaration.merged.readBack.Sound where
  module := sound.module
  notes := by
    intro note member
    obtain ⟨before, inside, rfl⟩ := List.mem_map.mp member
    exact (sound.notes before inside).merged
  preamble := by
    intro form member
    obtain ⟨before, inside, rfl⟩ := List.mem_map.mp member
    obtain ⟨known, kind⟩ := sound.preamble before inside
    exact ⟨known.merged, before.isPreamble_merged.trans kind⟩
  sections := by
    intro part member
    obtain ⟨joined, held, rfl⟩ := List.mem_map.mp member
    obtain ⟨before, inside, rfl⟩ := List.mem_map.mp held
    exact (sound.sections before inside).readBack
  first := by
    intro part head
    simp only [Declaration.readBack, Declaration.merged, List.map_map, List.head?_map,
      Option.mem_def, Option.map_eq_some_iff, Function.comp] at head
    obtain ⟨before, first, rfl⟩ := head
    simpa using sound.first before first

/-- A text in which a module has been renamed has a declaration again that can be written, of the
same module, and its dependencies are those from before with the module renamed. -/
theorem sound_of_renameInText {text renamed old new : Text} {declaration : Declaration}
    (parsed : Declaration.parse text = .ok declaration) (sound : declaration.Sound)
    (dotted : isDotted new = true) (worked : renameInText old new text = .ok renamed) :
    ∃ other, Declaration.parse renamed = .ok other ∧ other.Sound ∧
      other.module = declaration.module ∧
      other.dependencies =
        Text.sortedSet (declaration.dependencies.map (renamedTarget old new)) :=
  ⟨_, parse_renameInText parsed sound dotted worked,
    (sound.renameModule dotted).readBack, rfl, declaration.dependencies_renameModule⟩

end Relocate
