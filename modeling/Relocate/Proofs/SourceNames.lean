import Relocate.ModuleGraph
import Relocate.Proofs.Disk.Changes
import Relocate.Proofs.Disk.Locations

/-!
# Source files by their own names

Extensions are looked for in the lower-case form of a whole path. If no extension holds a slash,
only the name of the file itself counts: whatever path leads to a file, it is a source file or it is
none (`isSource_of_find`). A slash is neither a letter nor passed over when letters are looked for,
so a name is lowered behind it as it is on its own.
-/
namespace Relocate

namespace Text

/-- The letters in front of a slash do not count behind it. By induction on the letters: a slash is
neither passed over nor cased. -/
theorem startsCased_slash (near far : Text) :
    startsCased (near ++ '/' :: far) = startsCased near := by
  have passed : inRanges caseIgnorableRanges '/'.toNat = false := by decide +kernel
  have uncased : inRanges casedRanges '/'.toNat = false := by decide +kernel
  induction near with
  | nil =>
    rw [List.nil_append, startsCased, List.dropWhile_cons_of_neg (by rw [passed]; simp)]
    exact uncased
  | cons c near inductionHypothesis =>
    unfold startsCased at inductionHypothesis ⊢
    rw [List.cons_append, List.dropWhile_cons, List.dropWhile_cons]
    by_cases ignorable : inRanges caseIgnorableRanges c.toNat = true
    · rw [if_pos ignorable, if_pos ignorable]
      exact inductionHypothesis
    · rw [if_neg ignorable, if_neg ignorable]

/-- How a text is lowered does not depend on what stands in front of the last slash before it. -/
theorem lowerAfter_slash (near far text : Text) :
    lowerAfter (near ++ '/' :: far) text = lowerAfter near text := by
  induction text generalizing near with
  | nil => rfl
  | cons c rest inductionHypothesis =>
    rw [lowerAfter, lowerAfter, startsCased_slash, ← List.cons_append, inductionHypothesis]

/-- Lowering goes through a text from front to back: the rest is lowered behind what has been
passed. -/
theorem lowerAfter_append (before first second : Text) :
    ∃ lowered, lowerAfter before (first ++ second) =
      lowered ++ lowerAfter (first.reverse ++ before) second := by
  induction first generalizing before with
  | nil => exact ⟨[], rfl⟩
  | cons c first inductionHypothesis =>
    obtain ⟨lowered, same⟩ := inductionHypothesis (c :: before)
    rw [List.cons_append, lowerAfter, same, List.reverse_cons, List.append_assoc,
      List.singleton_append, ← List.append_assoc]
    exact ⟨_, rfl⟩

/-- What stands behind a slash is lowered on its own. -/
theorem lower_slash (first last : Text) :
    ∃ lowered, lower (first ++ '/' :: last) = lowered ++ '/' :: lower last := by
  obtain ⟨lowered, same⟩ := lowerAfter_append [] first ('/' :: last)
  refine ⟨lowered, ?_⟩
  have behind := lowerAfter_slash [] (first.reverse ++ []) last
  rw [List.nil_append] at behind
  rw [lower, same, lowerAfter, behind]
  rfl

/-- What stands in front of a slash is lowered the same whatever stands behind it. -/
theorem lower_append_slash (first last : Text) :
    lower (first ++ '/' :: last) = lower (first ++ ['/']) ++ lower last := by
  have through (before : Text) : lowerAfter before (first ++ '/' :: last) =
      lowerAfter before (first ++ ['/']) ++ lower last := by
    induction first generalizing before with
    | nil =>
      have behind := lowerAfter_slash [] before last
      rw [List.nil_append] at behind
      rw [List.nil_append, lowerAfter, behind]
      rfl
    | cons c first inductionHypothesis =>
      rw [List.cons_append, List.cons_append, lowerAfter, lowerAfter, startsCased_slash,
        startsCased_slash, inductionHypothesis, List.append_assoc]
  exact through []

/-- An ending without a slash does not reach past one. -/
theorem endsWith_slash {ending : Text} (plain : '/' ∉ ending) (first last : Text) :
    endsWith ending (first ++ '/' :: last) = endsWith ending last := by
  rw [Bool.eq_iff_iff, endsWith, endsWith, List.isPrefixOf_iff_prefix, List.isPrefixOf_iff_prefix,
    List.reverse_prefix, List.reverse_prefix]
  constructor
  · intro ends
    obtain inside | outside := List.suffix_or_suffix_of_suffix ends (List.suffix_append first _)
    · obtain whole | inside := List.suffix_cons_iff.mp inside
      · exact absurd (by simp [whole]) plain
      · exact inside
    · exact absurd (outside.subset (by simp)) plain
  · intro ends
    exact ends.trans ((List.suffix_cons '/' last).trans (List.suffix_append first _))

end Text

section Sources

variable {extensions : List Text} {disk : Disk} {path : Text} {place : Place} {content : Content}

/-- Only the part of a path behind a slash counts. -/
theorem isSource_slash (plain : ∀ extension ∈ extensions, '/' ∉ extension) (first last : Text) :
    isSource extensions (first ++ '/' :: last) = isSource extensions last := by
  obtain ⟨lowered, same⟩ := Text.lower_slash first last
  rw [isSource, isSource, same, Bool.eq_iff_iff, List.any_eq_true, List.any_eq_true]
  refine exists_congr fun extension => and_congr_right fun member => ?_
  rw [Text.endsWith_slash (plain extension member)]

/-- Whether a path is that of a source file depends on its last name alone, as no extension has a
slash. -/
@[simp] theorem isSource_path (plain : ∀ extension ∈ extensions, '/' ∉ extension) (above : Location)
    (name : Text) :
    isSource extensions (Location.path (above ++ [name])) = isSource extensions name := by
  have split : ∃ first, Location.path (above ++ [name]) = first ++ '/' :: name := by
    cases above with
    | nil => exact ⟨[], rfl⟩
    | cons first others =>
      exact ⟨Location.path (first :: others), by simp [Location.path, Text.join_cons]⟩
  obtain ⟨first, same⟩ := split
  rw [same, isSource_slash plain]

/-- An absolute path at which a file is found ends in a slash and the name of the file. Behind the
last slash stands one segment, and if it were one of dots a directory would be found. -/
theorem name_of_find (absolute : Path.isAbsolute path = true)
    (found : disk.find path = .ok (place, .file content)) :
    ∃ first name above, path = first ++ '/' :: name ∧ Path.destination path = above ++ [name] := by
  obtain ⟨located, node, noSlash⟩ := Disk.find_file_iff.mp found
  obtain ⟨-, -, -, followed⟩ := Disk.followFrom_ok_iff.mp located
  rw [if_pos absolute] at followed
  have here : place.location = Path.destination path := by
    rw [Disk.locate_absolute absolute located]
    rfl
  cases cut : Text.splitLast? '/' path with
  | none =>
    obtain ⟨rest, rfl⟩ := Path.isAbsolute_iff.mp absolute
    exact absurd (Text.splitLast?_eq_none_iff.mp cut) (by simp)
  | some parts =>
    obtain ⟨first, name⟩ := parts
    obtain ⟨rfl, clean⟩ := Text.splitLast?_eq_some_iff.mp cut
    have nonempty : name ≠ [] := by
      rintro rfl
      simp [Disk.wantsDirectory, Text.endsWith] at noSlash
    have alone : Disk.steps name = [name] :=
      @Disk.steps_join [name] fun other member =>
        List.mem_singleton.mp member ▸ isSegment_iff.mpr ⟨nonempty, clean⟩
    rw [Disk.steps_append, alone] at followed
    obtain ⟨middle, earlier, last⟩ := Disk.follow_append_ok_iff.mp followed
    obtain ⟨directory, next, stepped, rest⟩ := Disk.follow_cons_ok_iff.mp last
    obtain rfl := Except.ok.inj rest
    have inside : middle.removed = 0 := by
      rw [Disk.follow_ok earlier]
      exact Place.removed_after rfl _
    obtain ⟨location, removed⟩ := middle
    obtain rfl : removed = 0 := inside
    -- A path that ends in a step back or on the spot leads to a directory.
    have next := Place.next_of_step stepped
    unfold Place.next at next
    split at next
    · rw [next, directory] at node
      simp at node
    · split at next
      · have above : disk.nodeAt (Place.up ⟨location, 0⟩) = some .directory :=
          FileTree.rooted directory
        rw [next, above] at node
        simp at node
      · exact ⟨first, name, location, rfl, by rw [← here, next]; rfl⟩

/-- Whatever path leads to a file, it is a source file if its own name is that of one. -/
theorem isSource_of_find (plain : ∀ extension ∈ extensions, '/' ∉ extension)
    (absolute : Path.isAbsolute path = true) (found : disk.find path = .ok (place, .file content)) :
    isSource extensions (Path.destination path).path = isSource extensions path := by
  obtain ⟨first, name, above, rfl, same⟩ := name_of_find absolute found
  rw [same, isSource_path plain, isSource_slash plain]

end Sources

end Relocate
