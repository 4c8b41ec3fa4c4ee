import Mathlib.Data.List.Basic
import Relocate.References
import Relocate.Proofs.Text.Split

/-!
# Renaming works on whole names

A class name moves with a module by its text, and what counts is its segments: a name lies within
another one exactly if the segments of the one start with those of the other. So no name is moved
because one of its segments merely starts like the module's last one.

Nothing is lost on the way. Where the new name was not in use before, renaming the module back gives
the declaration that there was, with everything that renaming passes over at its place.
-/
namespace Relocate

namespace ModuleName

/-- The name is the given one or continues it behind a dot. -/
def Within (owner name : Text) : Prop := name = owner ∨ ∃ rest, name = owner ++ '.' :: rest

/-- The segments with those of one name in front replaced by those of another. Other segments stay
as they are. -/
def replaceFront (old new segments : List Text) : List Text :=
  if old.isPrefixOf segments then new ++ segments.drop old.length else segments

section Moving

variable {old new name : Text}

/-- Within a name lie those whose segments start with its own. A name is its segments joined by
dots, so that further segments are a dot and a rest. -/
theorem within_iff_segments {owner : Text} :
    Within owner name ↔ Text.split '.' owner <+: Text.split '.' name := by
  constructor
  · rintro (rfl | ⟨rest, rfl⟩)
    · exact List.prefix_refl _
    · rw [Text.split_append]
      exact List.prefix_append _ _
  · rintro ⟨more, split⟩
    have whole := Text.join_split '.' name
    rw [← split] at whole
    by_cases empty : more = []
    · rw [empty, List.append_nil, Text.join_split] at whole
      exact .inl whole.symm
    · rw [Text.join_append _ (Text.split_ne_nil _ _) empty, Text.join_split,
        List.append_assoc, List.singleton_append] at whole
      exact .inr ⟨_, whole.symm⟩

/-- What moving a name can do. -/
theorem rebase_cases (old new name : Text) :
    (name = old ∧ rebase old new name = new) ∨
      (∃ rest, name = old ++ '.' :: rest ∧ rebase old new name = new ++ '.' :: rest) ∨
      (¬ Within old name ∧ rebase old new name = name) := by
  rw [rebase]
  split
  · rename_i same
    exact .inl ⟨same, rfl⟩
  · rename_i other
    split
    · rename_i below
      obtain ⟨rest, rfl⟩ := List.isPrefixOf_iff_prefix.mp below
      exact .inr (.inl ⟨rest, by simp, by simp⟩)
    · rename_i outside
      refine .inr (.inr ⟨?_, rfl⟩)
      rintro (same | ⟨rest, rfl⟩)
      · exact other same
      · exact outside (List.isPrefixOf_iff_prefix.mpr ⟨rest, by simp⟩)

/-- Moving a name replaces whole segments. -/
theorem split_rebase (old new name : Text) :
    Text.split '.' (rebase old new name) =
      replaceFront (Text.split '.' old) (Text.split '.' new) (Text.split '.' name) := by
  rw [replaceFront]
  obtain ⟨rfl, moved⟩ | ⟨rest, rfl, moved⟩ | ⟨outside, moved⟩ := rebase_cases old new name
  · rw [moved, if_pos (List.isPrefixOf_iff_prefix.mpr (List.prefix_refl _)), List.drop_length,
      List.append_nil]
  · rw [moved, Text.split_append, Text.split_append,
      if_pos (List.isPrefixOf_iff_prefix.mpr (List.prefix_append _ _)), List.drop_left]
  · rw [moved, if_neg]
    exact fun front => outside (within_iff_segments.mpr (List.isPrefixOf_iff_prefix.mp front))

/-- A name stays where it is if it does not lie within the module. -/
theorem rebase_of_not_within (outside : ¬ Within old name) : rebase old new name = name := by
  obtain ⟨same, -⟩ | ⟨rest, same, -⟩ | ⟨-, moved⟩ := rebase_cases old new name
  · exact absurd (.inl same) outside
  · exact absurd (.inr ⟨rest, same⟩) outside
  · exact moved

/-- A name moves back from where no name was before. -/
theorem rebase_rebase (free : ¬ Within new name) : rebase new old (rebase old new name) = name := by
  obtain ⟨rfl, moved⟩ | ⟨rest, rfl, moved⟩ | ⟨-, moved⟩ := rebase_cases old new name
  · rw [moved, rebase, if_pos rfl]
  · have below : Text.startsWith (new ++ ['.']) (new ++ '.' :: rest) = true :=
      List.isPrefixOf_iff_prefix.mpr ⟨rest, by simp⟩
    rw [moved, rebase, if_neg (by simp), if_pos below, List.drop_left]
  · rw [moved, rebase_of_not_within free]

end Moving

end ModuleName

section Undoing

variable {old new : Text}

/-- What undoes a change of each item undoes the change of all. -/
theorem map_map_of_undone {α : Type} {change undo : α → α} {items : List α}
    (undone : ∀ item ∈ items, undo (change item) = item) : (items.map change).map undo = items := by
  rw [List.map_map]
  exact (List.map_congr_left undone).trans (List.map_id items)

/-- A requirement gets its target back if none asked for the new name. -/
theorem Entry.renameModule_back {entry : Entry}
    (free : ∀ required ∈ entry.requirement?, required.target ≠ new) :
    (entry.renameModule old new).renameModule new old = entry := by
  cases entry with
  | verbatim form => rfl
  | requirement required =>
    have other := free required rfl
    by_cases same : required.target = old
    · subst same
      simp [Entry.renameModule, Requirement.withTarget]
    · simp [Entry.renameModule, same, other]

/-- A rename in a section is undone by the rename back, if the new name occurs neither among the
targets nor at the start of a class. -/
theorem Section.renameModule_back {part : Section}
    (targets : ∀ required ∈ part.requirements, required.target ≠ new)
    (classes : ∀ name ∈ part.classes, ¬ ModuleName.Within (ModuleName.flatten new) name) :
    (part.renameModule old new).renameModule new old = part := by
  cases part with
  | verbatim form => rfl
  | references keyword entries =>
    have each : ∀ entry ∈ entries, (entry.renameModule old new).renameModule new old = entry :=
      fun entry member => Entry.renameModule_back fun required held =>
        targets required (List.mem_filterMap.mpr ⟨entry, member, held⟩)
    rw [Section.renameModule, Section.renameModule, map_map_of_undone each]
  | imports names extras =>
    have each : ∀ name ∈ names, ModuleName.rebase (ModuleName.flatten new) (ModuleName.flatten old)
        (ModuleName.rebase (ModuleName.flatten old) (ModuleName.flatten new) name) = name :=
      fun name member => ModuleName.rebase_rebase (classes name member)
    simp only [Section.renameModule, map_map_of_undone each]

/-- Only requirements of the module change, and only in their target. -/
@[simp] theorem Section.requirements_renameModule (part : Section) :
    (part.renameModule old new).requirements = part.requirements.map fun required =>
      if required.target = old then required.withTarget new else required := by
  cases part with
  | verbatim form => rfl
  | imports names extras => rfl
  | references keyword entries =>
    simp only [Section.renameModule, Section.requirements, List.filterMap_map, List.map_filterMap]
    refine List.filterMap_congr fun entry _ => ?_
    cases entry <;> rfl

/-- The imported classes of a section move with the package of the module, and the others stay. -/
@[simp] theorem Section.classes_renameModule (part : Section) :
    (part.renameModule old new).classes = part.classes.map
      (ModuleName.rebase (ModuleName.flatten old) (ModuleName.flatten new)) := by
  cases part <;> rfl

end Undoing

/-- Renaming a module gives each requirement of it the new target, and replaces the module's
segments by those of the new name in each class that starts with them. Where nothing was required of
the new name and no class lay within it, renaming back restores the declaration. Targets are
compared as a whole and classes segment by segment, and both changes are undone where the new name
was not in use. -/
theorem Declaration.renameModule_wholeNames (old new : Text) (declaration : Declaration) :
    ((∀ required ∈ declaration.requirements, required.target ≠ new) →
      (∀ name ∈ declaration.classes, ¬ ModuleName.Within (ModuleName.flatten new) name) →
      (declaration.renameModule old new).renameModule new old = declaration) ∧
    (declaration.renameModule old new).requirements = declaration.requirements.map (fun required =>
      if required.target = old then required.withTarget new else required) ∧
    (declaration.renameModule old new).classes.map (Text.split '.') =
      declaration.classes.map fun name =>
        ModuleName.replaceFront (Text.split '.' (ModuleName.flatten old))
          (Text.split '.' (ModuleName.flatten new)) (Text.split '.' name) := by
  refine ⟨fun targets classes => ?_, ?_, ?_⟩
  · have each : ∀ part ∈ declaration.sections,
        (part.renameModule old new).renameModule new old = part :=
      fun part member => Section.renameModule_back
        (fun required held => targets required (List.mem_flatMap.mpr ⟨part, member, held⟩))
        (fun name held => classes name (List.mem_flatMap.mpr ⟨part, member, held⟩))
    simp only [Declaration.renameModule, map_map_of_undone each]
  · simp only [Declaration.requirements, Declaration.renameModule, List.flatMap_map,
      List.map_flatMap, Section.requirements_renameModule]
  · simp only [Declaration.classes, Declaration.renameModule, List.flatMap_map, List.map_flatMap,
      Section.classes_renameModule, List.map_map, Function.comp_def, ModuleName.split_rebase]

/-- A declaration that requires a module and one below it, and imports the module's own class, a
class within it, and one whose package merely starts like it. -/
def neighbours : Declaration where
  module := "user".toList
  notes := []
  preamble := []
  sections := [
    .references "require".toList [
      .requirement ⟨"my-app.core".toList, some "c".toList, none, false, [], false⟩,
      .verbatim (.keyword "reload".toList),
      .requirement (.plain "my-app.core.db".toList true)],
    .imports ["my_app.core".toList, "my_app.core.Row".toList, "my_app.core2.Row".toList]
      [.string [] "\"\"".toList]]

/-- Of these names the module's own change and the ones that merely start like it stay, and the
rename back gives the declaration again. -/
theorem Declaration.renameModule_wholeNames_neighbours :
    ((neighbours.renameModule "my-app.core".toList "base".toList).renameModule "base".toList
      "my-app.core".toList = neighbours) ∧
      (neighbours.renameModule "my-app.core".toList "base".toList).requirements.map
          Requirement.target = ["base".toList, "my-app.core.db".toList] ∧
      (neighbours.renameModule "my-app.core".toList "base".toList).classes.map (Text.split '.') =
        [["base".toList], ["base".toList, "Row".toList],
          ["my_app".toList, "core2".toList, "Row".toList]] := by
  have outside : ∀ name ∈ neighbours.classes,
      ¬ ModuleName.Within (ModuleName.flatten "base".toList) name := by
    simp only [ModuleName.within_iff_segments, ← List.isPrefixOf_iff_prefix]
    decide
  obtain ⟨back, requirements, classes⟩ :=
    Declaration.renameModule_wholeNames "my-app.core".toList "base".toList neighbours
  refine ⟨back (by decide) outside, ?_, ?_⟩
  · rw [requirements]
    decide
  · rw [classes]
    decide

end Relocate
