import Relocate.References
import Relocate.Proofs.Declaration.Codec

/-!
# Declarations after a module has been renamed

The text of a file that depends on a renamed module has a declaration again, the one from before
with the module renamed, between the text from before and the renamed body:
`sourceFile_parse_renameInText`. Its declaration has to be one that can be written at all, and the
new name has to be made of symbols.
-/
namespace Relocate

/-- The target of a requirement after a module has been renamed. -/
def renamedTarget (old new target : Text) : Text := if target = old then new else target

section Names

variable {name : Text}

/-- Underscores for hyphens do not change where a name is cut. By induction on the name: only
hyphens are replaced, and not by dots. -/
theorem split_flatten (name : Text) :
    Text.split '.' (ModuleName.flatten name) = (Text.split '.' name).map ModuleName.flatten := by
  induction name with
  | nil => rfl
  | cons c name inductionHypothesis =>
    rw [ModuleName.flatten, Text.replaceChar] at inductionHypothesis ⊢
    by_cases dot : c = '.'
    · subst dot
      simp [Text.split, inductionHypothesis, ModuleName.flatten, Text.replaceChar]
    · obtain ⟨piece, pieces, same, longer⟩ := Text.split_cons dot name
      have other : (if c = '-' then '_' else c) ≠ '.' := by
        split
        · decide
        · exact dot
      obtain ⟨first, others, cut, cutLonger⟩ := Text.split_cons other
        (name.map fun c => if c = '-' then '_' else c)
      rw [inductionHypothesis, same, List.map_cons] at cut
      obtain ⟨rfl, rfl⟩ := List.cons.inj cut
      rw [List.map_cons, cutLonger, longer]
      rfl

/-- A word without underscores is the flattened form of itself alone. -/
theorem eq_of_flatten {word : Text} (clean : '_' ∉ word)
    (same : ModuleName.flatten name = word) : name = word := by
  rw [← same, ModuleName.flatten, Text.replaceChar_of_not_mem]
  intro hyphen
  apply clean
  rw [← same, ModuleName.flatten, Text.replaceChar]
  exact List.mem_map.mpr ⟨'-', hyphen, by simp⟩

/-- A name with underscores for hyphens is no literal if it was none before. None of the words that
are literals has an underscore, and an underscore is no digit. -/
theorem isLiteral_flatten (symbol : isLiteral name = false) :
    isLiteral (ModuleName.flatten name) = false := by
  have notWord (word : String) (clean : '_' ∉ word.toList) (other : name ≠ word.toList) :
      ModuleName.flatten name ≠ word.toList := fun same => other (eq_of_flatten clean same)
  have underscore : Text.isDigit '_' = false := by decide
  have digit (c : Char) (noDigit : Text.isDigit c = false) :
      Text.isDigit (if c = '-' then '_' else c) = false := by
    split
    · exact underscore
    · exact noDigit
  simp only [isLiteral, Bool.or_eq_false_iff, decide_eq_false_iff_not] at symbol ⊢
  refine ⟨⟨⟨notWord "nil" (by decide) symbol.1.1.1, notWord "true" (by decide) symbol.1.1.2⟩,
    notWord "false" (by decide) symbol.1.2⟩, ?_⟩
  have several := symbol.2
  cases name with
  | nil => rfl
  | cons c more =>
    cases more with
    | nil => exact digit c several
    | cons d more =>
      simp only [ModuleName.flatten, Text.replaceChar, List.map_cons]
      by_cases hyphen : c = '-'
      · simp [hyphen, underscore]
      · rw [if_neg hyphen]
        by_cases plus : c = '+'
        · simp only [plus, decide_true, Bool.true_or, if_true] at several ⊢
          exact digit d several
        · simpa [plus, hyphen] using several

/-- A symbol with underscores for hyphens is a symbol. -/
theorem readsAsSymbol_flatten (reads : readsAsSymbol name = true) :
    readsAsSymbol (ModuleName.flatten name) = true := by
  obtain ⟨shape, symbol⟩ := readsAsSymbol_iff.mp reads
  obtain ⟨head, literal⟩ := ofAtom_eq_symbol_iff.mp symbol
  refine readsAsSymbol_iff.mpr ⟨?_, ofAtom_eq_symbol_iff.mpr ⟨?_, isLiteral_flatten literal⟩⟩
  · cases name with
    | nil => simp [isAtom] at shape
    | cons c run =>
      simp only [isAtom, isRun, Bool.and_eq_true, List.all_eq_true] at shape
      simp only [ModuleName.flatten, Text.replaceChar, List.map_cons, isAtom, isRun,
        Bool.and_eq_true, List.all_eq_true, List.forall_mem_map]
      constructor
      · split
        · decide
        · exact shape.1
      · intro d member
        split
        · decide
        · exact shape.2 d member
  · cases name with
    | nil => simp [isAtom] at shape
    | cons c run =>
      simp only [ModuleName.flatten, Text.replaceChar, List.map_cons, List.head?_cons]
      split
      · decide
      · exact head

/-- Flattening a name keeps its dots and the shape of its segments. -/
theorem isDotted_flatten (dotted : isDotted name = true) :
    isDotted (ModuleName.flatten name) = true := by
  rw [isDotted, split_flatten, List.all_map]
  rw [isDotted, List.all_eq_true] at dotted
  exact List.all_eq_true.mpr fun segment member => readsAsSymbol_flatten (dotted segment member)

/-- A dotted name below a module is dotted below another one. -/
theorem isDotted_rebase {old new : Text} (newDotted : isDotted new = true)
    (dotted : isDotted name = true) : isDotted (ModuleName.rebase old new name) = true := by
  rw [ModuleName.rebase]
  split
  · exact newDotted
  · split
    · rename_i starts
      obtain ⟨rest, rfl⟩ := List.isPrefixOf_iff_prefix.mp starts
      rw [List.append_assoc, List.singleton_append, isDotted_append, Bool.and_eq_true] at dotted
      rw [List.append_assoc, List.drop_left, List.singleton_append, isDotted_append, newDotted,
        dotted.2]
      rfl
    · exact dotted

end Names

section Soundness

variable {old new : Text}

/-- A requirement that can be written can be written with another target. -/
theorem Requirement.Sound.withTarget {requirement : Requirement} (sound : requirement.Sound)
    (reads : readsAsSymbol new = true) : (requirement.withTarget new).Sound :=
  { sound with
    target := reads
    bare := by
      intro bare
      rw [sound.bare bare]
      rfl }

/-- Renaming a module in an entry keeps it sound, if the new name reads as a symbol. -/
theorem Entry.Sound.renameModule {entry : Entry} (sound : entry.Sound)
    (reads : readsAsSymbol new = true) : (entry.renameModule old new).Sound := by
  cases entry with
  | verbatim form => exact sound
  | requirement required =>
    by_cases same : required.target = old
    · rw [Entry.renameModule, if_pos same]
      exact Requirement.Sound.withTarget sound reads
    · rw [Entry.renameModule, if_neg same]
      exact sound

/-- Renaming a module in a section keeps it sound, if the segments of the new name read as symbols.
-/
theorem Section.Sound.renameModule {part : Section} (sound : part.Sound)
    (dotted : isDotted new = true) : (part.renameModule old new).Sound := by
  cases part with
  | verbatim form => exact sound
  | references keyword entries =>
    refine ⟨sound.1, fun entry member => ?_⟩
    obtain ⟨before, inside, rfl⟩ := List.mem_map.mp member
    exact (sound.2 before inside).renameModule (readsAsSymbol_of_isDotted dotted)
  | imports classes extras =>
    refine ⟨fun name member => ?_, sound.2⟩
    obtain ⟨before, inside, rfl⟩ := List.mem_map.mp member
    exact isDotted_rebase (isDotted_flatten dotted) (sound.1 before inside)

/-- A declaration that can be written can be written after a module has been renamed in it. -/
theorem Declaration.Sound.renameModule {declaration : Declaration} (sound : declaration.Sound)
    (dotted : isDotted new = true) : (declaration.renameModule old new).Sound where
  module := sound.module
  notes := sound.notes
  preamble := sound.preamble
  sections := by
    intro part member
    obtain ⟨before, inside, rfl⟩ := List.mem_map.mp member
    exact (sound.sections before inside).renameModule dotted
  first := by
    intro part head
    rw [Declaration.renameModule, List.head?_map, Option.mem_def, Option.map_eq_some_iff] at head
    obtain ⟨before, first, rfl⟩ := head
    have kind := sound.first before first
    cases before <;> exact kind

end Soundness

section Targets

variable {old new : Text}

/-- The targets of a section are renamed with the module. By cases on the section, of which only
references have targets. -/
theorem Section.targets_renameModule (part : Section) :
    (part.renameModule old new).requirements.map Requirement.target =
      (part.requirements.map Requirement.target).map (renamedTarget old new) := by
  cases part with
  | verbatim form => rfl
  | imports classes extras => rfl
  | references keyword entries =>
    simp only [Section.renameModule, Section.requirements, List.filterMap_map, List.map_filterMap]
    refine List.filterMap_congr fun entry _ => ?_
    cases entry with
    | verbatim form => rfl
    | requirement required =>
      simp only [Function.comp, Entry.renameModule, Entry.requirement?, Option.map_some,
        renamedTarget]
      split <;> rfl

/-- Writing and reading a section keeps its targets. -/
theorem Section.targets_readBack (part : Section) :
    part.merged.readBack.requirements.map Requirement.target =
      part.requirements.map Requirement.target := by
  cases part with
  | verbatim form => rfl
  | imports classes extras => rfl
  | references keyword entries =>
    simp only [Section.merged, Section.readBack, Section.requirements, List.filterMap_map,
      List.map_filterMap]
    refine List.filterMap_congr fun entry _ => ?_
    cases entry <;> rfl

/-- What a declaration requires after a rename, once it has been written and read again: the same
targets in the same order, with the new name in the place of the old one. -/
theorem Declaration.targets_renameModule (declaration : Declaration) :
    (declaration.renameModule old new).merged.readBack.requirements.map Requirement.target =
      (declaration.requirements.map Requirement.target).map (renamedTarget old new) := by
  simp only [Declaration.requirements, Declaration.readBack, Declaration.merged,
    Declaration.renameModule, List.flatMap_map, List.map_flatMap, Section.targets_readBack,
    Section.targets_renameModule]

/-- The dependencies of a declaration are renamed with the module. -/
theorem Declaration.dependencies_renameModule (declaration : Declaration) :
    (declaration.renameModule old new).merged.readBack.dependencies =
      Text.sortedSet (declaration.dependencies.map (renamedTarget old new)) := by
  rw [Declaration.dependencies, Declaration.targets_renameModule, Text.sortedSet_eq_iff]
  intro target
  simp [Declaration.dependencies]

end Targets

/-- The text of a file in which a module has been renamed splits where it split before: what stands
in front of the declaration stays, the body has the module renamed, and the declaration in between
is the one from before with the module renamed, as it is read back. -/
theorem sourceFile_parse_renameInText {text old new : Text} {file : SourceFile}
    (found : SourceFile.parse text = .ok file) (sound : file.declaration.Sound)
    (dotted : isDotted new = true) :
    ∃ renamed, renameInText old new text = .ok renamed ∧
      SourceFile.parse renamed = .ok
        ⟨file.before, (file.declaration.renameModule old new).merged.readBack,
          renameInBody old new file.body⟩ := by
  obtain ⟨form, own, items, -, passed, spelled, -, -⟩ := sourceFile_parse_iff.mp found
  have follows : Passed file.before ((file.declaration.renameModule old new).render ++
      renameInBody old new file.body) := by
    refine passed.follow (fun _ => ?_) (fun empty => ?_)
    · rw [Declaration.render_eq]
      exact delimited_cons.mpr (by decide)
    · obtain ⟨c, run, same, -⟩ := spelled.starts
      simp [same] at empty
  refine ⟨file.before ++ (file.declaration.renameModule old new).render ++
    renameInBody old new file.body, by rw [renameInText, found]; rfl, ?_⟩
  rw [List.append_assoc, sourceFile_parse_written (sound.renameModule dotted) follows]

/-- The text of a file in which a module has been renamed declares what the file declared before,
with the module renamed, as it is read back. -/
theorem parse_renameInText {text renamed old new : Text} {declaration : Declaration}
    (parsed : Declaration.parse text = .ok declaration) (sound : declaration.Sound)
    (dotted : isDotted new = true) (worked : renameInText old new text = .ok renamed) :
    Declaration.parse renamed = .ok (declaration.renameModule old new).merged.readBack := by
  obtain ⟨file, found, rfl⟩ := sourceFile_of_parse parsed
  obtain ⟨other, same, read⟩ := sourceFile_parse_renameInText found sound dotted
  obtain rfl := Except.ok.inj (worked.symm.trans same)
  rw [Declaration.parse, read]
  rfl

end Relocate
