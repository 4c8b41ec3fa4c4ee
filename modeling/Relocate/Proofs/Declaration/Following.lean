import Relocate.Proofs.Declaration.References

/-!
# Files that follow a renamed module

When a module is renamed, the text of a file that depends on it is written anew around its
declaration. `renameInText_follows` says what is read from the new text: what stands before the
declaration, section for section the declaration from before with the module renamed
(`Declaration.Follows`), and behind it the body with the module renamed.

The relations below are stated on what is read, entry by entry. One thing need not come back: names
that a requirement lists although it takes over all names of its target.
-/
namespace Relocate

/-- The requirement follows a renamed module: it asks for the same as before, of the module's new
name if it asked for the module. -/
structure Requirement.Follows (old new : Text) (before after : Requirement) : Prop where
  target : after.target = renamedTarget old new before.target
  nickname : after.nickname = before.nickname
  referred : before.referAll = false → after.referred = before.referred
  referAll : after.referAll = before.referAll
  options : after.options = before.options
  bare : after.bare = before.bare

/-- The entry follows a renamed module. -/
inductive Entry.Follows (old new : Text) : Entry → Entry → Prop where
  | requirement {before after : Requirement} (follows : before.Follows old new after) :
    Entry.Follows old new (.requirement before) (.requirement after)
  | verbatim (form : Form) : Entry.Follows old new (.verbatim form) (.verbatim form)

/-- The section follows a renamed module. Imported classes come back gathered by package, those
below the module in their new place. -/
inductive Section.Follows (old new : Text) : Section → Section → Prop where
  | references (keyword : Text) {before after : List Entry}
      (entries : List.Forall₂ (Entry.Follows old new) before after) :
    Section.Follows old new (.references keyword before) (.references keyword after)
  | imports (classes : List Text) (extras : List Form) :
    Section.Follows old new (.imports classes extras) (.imports (gathered (classes.map
      (ModuleName.rebase (ModuleName.flatten old) (ModuleName.flatten new)))) extras)
  | verbatim (form : Form) : Section.Follows old new (.verbatim form) (.verbatim form)

/-- The declaration follows a renamed module. -/
structure Declaration.Follows (old new : Text) (before after : Declaration) : Prop where
  module : after.module = before.module
  notes : after.notes = before.notes
  preamble : after.preamble = before.preamble
  sections : List.Forall₂ (Section.Follows old new) before.sections after.sections

section Renaming

variable {old new : Text}

/-- Renaming a module gives a requirement its target renamed and nothing else. -/
theorem Entry.renameModule_requirement (required : Requirement) :
    (Entry.requirement required).renameModule old new =
      .requirement (required.withTarget (renamedTarget old new required.target)) := by
  rw [Entry.renameModule, renamedTarget]
  split <;> rfl

/-- An entry with the module renamed, as it is read back, follows the module. -/
theorem Entry.follows_renameModule (entry : Entry) :
    entry.Follows old new (entry.renameModule old new).settled := by
  cases entry with
  | verbatim form => exact .verbatim form
  | requirement required =>
    rw [Entry.renameModule_requirement]
    refine .requirement ⟨rfl, rfl, fun listed => ?_, rfl, rfl, rfl⟩
    simp [Requirement.settled, Requirement.withTarget, listed]

/-- A section with the module renamed, as it is read back, follows the module. -/
theorem Section.follows_renameModule (part : Section) :
    part.Follows old new (part.renameModule old new).readBack := by
  cases part with
  | verbatim form => exact .verbatim form
  | imports classes extras => exact .imports classes extras
  | references keyword entries =>
    refine .references keyword ?_
    rw [List.map_map, List.forall₂_map_right_iff]
    exact List.forall₂_same.mpr fun entry _ => entry.follows_renameModule

/-- A declaration with the module renamed, as it is read back, follows the module. -/
theorem Declaration.follows_renameModule (declaration : Declaration) :
    declaration.Follows old new (declaration.renameModule old new).readBack := by
  refine ⟨rfl, rfl, rfl, ?_⟩
  rw [Declaration.readBack, Declaration.renameModule, List.map_map, List.forall₂_map_right_iff]
  exact List.forall₂_same.mpr fun part _ => part.follows_renameModule

/-- Renaming a module and joining marks do not get in each other's way. -/
@[simp] theorem Entry.merged_renameModule (entry : Entry) :
    (entry.renameModule old new).merged = entry.merged.renameModule old new := by
  cases entry with
  | verbatim form => rfl
  | requirement required =>
    rw [Entry.renameModule_requirement, Entry.merged, Entry.merged, Entry.renameModule_requirement]
    rfl

/-- Merging marks and renaming a module in a section do not get in each other's way. -/
@[simp] theorem Section.merged_renameModule (part : Section) :
    (part.renameModule old new).merged = part.merged.renameModule old new := by
  cases part with
  | verbatim form => rfl
  | imports classes extras => rfl
  | references keyword entries =>
    simp [Section.renameModule, Section.merged]

/-- Merging marks and renaming a module in a declaration do not get in each other's way. -/
@[simp] theorem Declaration.merged_renameModule (declaration : Declaration) :
    (declaration.renameModule old new).merged = declaration.merged.renameModule old new := by
  simp [Declaration.renameModule, Declaration.merged]

/-- The text of a file in which a module has been renamed is written, and it splits into what stood
before the declaration, a declaration that follows the module, and the body with the module renamed.
The renamed declaration is sound, so that it is read back from what is written for it, and renaming
and reading back go through the sections one by one. -/
theorem renameInText_follows {text : Text} {file : SourceFile}
    (parsed : SourceFile.parse text = .ok file)
    (stable : ∀ form ∈ declarationForm? text, form.renderStable = true)
    (dotted : ∀ name ∈ file.declaration.classes,
      ∀ segment ∈ Text.split '.' name, readsAsSymbol segment = true)
    (named : ∀ segment ∈ Text.split '.' new, readsAsSymbol segment = true) :
    ∃ renamed declaration, renameInText old new text = .ok renamed ∧
      SourceFile.parse renamed =
        .ok ⟨file.before, declaration, renameInBody old new file.body⟩ ∧
      file.declaration.Follows old new declaration := by
  have sound := sound_of_renderStable parsed stable fun name member =>
    List.all_eq_true.mpr (dotted name member)
  obtain ⟨renamed, worked, read⟩ := @sourceFile_parse_renameInText text old new file parsed sound
    (List.all_eq_true.mpr named)
  rw [Declaration.merged_renameModule, merged_of_renderStable parsed stable] at read
  exact ⟨renamed, _, worked, read, file.declaration.follows_renameModule⟩

end Renaming

/-- A file that asks for the module `b.c` in a prefix list, on its own and with all its names, and
whose declaration stands behind one that is commented out. -/
def follower : Text :=
  ("; ns\n#_(ns z)\n(ns ^:live app \"doc\" (:require [b [c :as d :refer [e]] f] b.c " ++
    "[b.c :refer [g] :refer :all] #?(:clj [b.c])) (:gen-class) (:import b.c.P P x.Q))\n" ++
    "(b.c/run b_c/x)").toList

/-- Every place where this file asks for the module follows the rename, and what is commented out,
the names that merely look alike and the text in front stay. -/
theorem renameInText_follows_follower :
    ∃ file renamed declaration, SourceFile.parse follower = .ok file ∧
      file.before = "; ns\n#_(ns z)\n".toList ∧
      renameInText "b.c".toList "new-b.c".toList follower = .ok renamed ∧
      SourceFile.parse renamed = .ok ⟨file.before, declaration,
        "\n(new_b.c/run b_c/x)".toList⟩ ∧
      file.declaration.Follows "b.c".toList "new-b.c".toList declaration := by
  have parsed : ∃ file, SourceFile.parse follower = .ok file ∧
      file.before = "; ns\n#_(ns z)\n".toList ∧
      renameInBody "b.c".toList "new-b.c".toList file.body = "\n(new_b.c/run b_c/x)".toList ∧
      ∀ name ∈ file.declaration.classes,
        ∀ segment ∈ Text.split '.' name, readsAsSymbol segment = true := by
    refine ⟨⟨"; ns\n#_(ns z)\n".toList, ⟨"app".toList, [.keyword "live".toList],
      [.string "doc".toList "\"doc\"".toList], [.references "require".toList [
        .requirement ⟨"b.c".toList, some "d".toList, some ["e".toList], false, [], false⟩,
        .requirement (.plain "b.f".toList true), .requirement (.plain "b.c".toList true),
        .requirement ⟨"b.c".toList, none, some ["g".toList], true, [], false⟩,
        .verbatim (.marked "#?".toList [] (.seq .list [.keyword "clj".toList,
          .seq .vector [.symbol "b.c".toList]]))],
      .verbatim (.seq .list [.keyword "gen-class".toList]),
      .imports ["b.c.P".toList, "P".toList, "x.Q".toList] []]⟩, "\n(b.c/run b_c/x)".toList⟩, ?_⟩
    decide +kernel
  obtain ⟨file, parsed, before, body, dotted⟩ := parsed
  obtain ⟨renamed, declaration, worked, read, follows⟩ := @renameInText_follows "b.c".toList
    "new-b.c".toList follower file parsed (by decide +kernel) dotted (by decide +kernel)
  exact ⟨file, renamed, declaration, parsed, before, worked, body ▸ read, follows⟩

end Relocate
