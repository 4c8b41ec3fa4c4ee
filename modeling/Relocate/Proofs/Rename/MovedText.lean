import Relocate.Proofs.Rename.OwnName

/-!
# The text of a moved file

Three texts may be written to the new path of a renamed file: the file itself is moved there, then
its name is replaced in it, and at last every file that depends on it is written. A file that is
replaced by the move may be one of these. What it becomes has been worked out before the move, and
is written over the moved file: `renameFile_moved_text` says that the text of the moved file
survives with its name replaced once unless this happens, and what is found at the new path if it
does.
-/
namespace Relocate

/-- A name that occurs in a text is replaced where it occurs first, and nowhere else. By induction
on the text. -/
theorem replaceFirst_of_occurs {old text : Text} (nonempty : old ≠ [])
    (occurs : old <:+: text) (new : Text) :
    ∃ lead rest, text = lead ++ (old ++ rest) ∧ occursBefore old lead.length text = false ∧
      Text.replaceFirst old new text = lead ++ (new ++ rest) := by
  induction text with
  | nil => exact absurd (List.infix_nil.mp occurs) nonempty
  | cons c text inductionHypothesis =>
    by_cases here : Text.startsWith old (c :: text) = true
    · obtain ⟨rest, same⟩ := List.isPrefixOf_iff_prefix.mp here
      refine ⟨[], rest, by simpa using same.symm, by simp [occursBefore], ?_⟩
      rw [Text.replaceFirst, if_pos here, ← same, List.drop_left, List.nil_append]
    · have later : old <:+: text := by
        obtain first | later := List.infix_cons_iff.mp occurs
        · exact absurd (List.isPrefixOf_iff_prefix.mpr first) here
        · exact later
      obtain ⟨lead, rest, same, first, replaced⟩ := inductionHypothesis later
      refine ⟨c :: lead, rest, by rw [List.cons_append, ← same], ?_, ?_⟩
      · simp only [occursBefore, List.any_eq_false, List.mem_range, Bool.not_eq_true] at first ⊢
        intro start inside
        cases start with
        | zero => simpa using here
        | succ start => exact first start (by simpa using inside)
      · rw [Text.replaceFirst, if_neg here, replaced, List.cons_append]

/-- A declared name occurs in the text that declares it. -/
theorem occurs_of_parse {text : Text} {declaration : Declaration}
    (parsed : Declaration.parse text = .ok declaration) :
    declaration.module ≠ [] ∧ declaration.module <:+: text := by
  obtain ⟨lead, rest, same, shape, -⟩ := parse_renamed parsed
  refine ⟨fun missing => by simp [missing, isAtom] at shape, lead, rest, ?_⟩
  rw [same, List.append_assoc]

namespace Project

open Action

section

variable {project : Project} {world after : World} {old new text newModule : Text}
  {declaration : Declaration} {dependents written : List Text}

/-- A rename that works has found the new module and the files that depend on the old one. -/
theorem renameFile_planned (source : isSource project.extensions old = true)
    (read : world.disk.read old = .ok (.text text))
    (parsed : Declaration.parse text = .ok declaration)
    (run : (project.renameFile old new).run world = (.ok written, after)) :
    ∃ newModule dependents, ((project.resolve new).run world).1 = .ok newModule ∧
      ((project.dependentFiles old).run world).1 = .ok dependents := by
  obtain ⟨newModule, dependents, resolved, listed, -⟩ :=
    renameFile_written_last source read parsed run
  exact ⟨newModule, dependents, resolved, listed⟩

/-- If a dependent leads to the new path, the text there is that of a dependent with the references
to the module renamed. -/
theorem renameFile_replaced (source : isSource project.extensions old = true)
    (read : world.disk.read old = .ok (.text text))
    (parsed : Declaration.parse text = .ok declaration)
    (resolved : ((project.resolve new).run world).1 = .ok newModule)
    (listed : ((project.dependentFiles old).run world).1 = .ok dependents)
    (leads : ∃ path ∈ dependents, Path.destination path = world.disk.destination new)
    (run : (project.renameFile old new).run world = (.ok written, after)) :
    ∃ path ∈ dependents, ∃ replaced renamed,
      Path.destination path = world.disk.destination new ∧
      world.disk.read path = .ok (.text replaced) ∧
      renameInText declaration.module newModule replaced = .ok renamed ∧
      after.disk.read new = .ok (.text renamed) := by
  obtain ⟨module, paths, sameModule, sameFiles, last⟩ :=
    renameFile_written_last source read parsed run
  obtain rfl := Except.ok.inj (sameModule.symm.trans resolved)
  obtain rfl := Except.ok.inj (sameFiles.symm.trans listed)
  obtain replaced | ⟨apart, -⟩ := last
  · exact replaced
  · obtain ⟨path, dependent, led⟩ := leads
    exact absurd led (apart path dependent)

end

/-- After a source file has been renamed, the text at its new path is its own, with the first
occurrence of its name replaced and nothing else. The one exception is a file that the move replaces
and that depends on the renamed one: then the text is what that file was to become. Which text is
written last to the new path decides: the dependents are written after the own name has been fixed.
-/
theorem renameFile_moved_text {project : Project} {world after : World} {old new text : Text}
    {declaration : Declaration} {written : List Text}
    (source : isSource project.extensions old = true)
    (read : world.disk.read old = .ok (.text text))
    (parsed : Declaration.parse text = .ok declaration)
    (run : (project.renameFile old new).run world = (.ok written, after)) :
    ∃ newModule dependents, ((project.resolve new).run world).1 = .ok newModule ∧
      ((project.dependentFiles old).run world).1 = .ok dependents ∧
      ((∀ path ∈ dependents, Path.destination path ≠ world.disk.destination new) →
        ∃ lead rest, text = lead ++ (declaration.module ++ rest) ∧
          occursBefore declaration.module lead.length text = false ∧
          after.disk.read new = .ok (.text (lead ++ (newModule ++ rest)))) ∧
      ((∃ path ∈ dependents, Path.destination path = world.disk.destination new) →
        ∃ path ∈ dependents, ∃ replaced renamed,
          Path.destination path = world.disk.destination new ∧
          world.disk.read path = .ok (.text replaced) ∧
          renameInText declaration.module newModule replaced = .ok renamed ∧
          after.disk.read new = .ok (.text renamed)) := by
  obtain ⟨newModule, dependents, resolved, listed⟩ :=
    renameFile_planned source read parsed run
  refine ⟨newModule, dependents, resolved, listed, fun apart => ?_, fun leads =>
    renameFile_replaced source read parsed resolved listed leads run⟩
  have moved := renameFile_text source read parsed resolved listed apart run
  obtain ⟨nonempty, occurs⟩ := occurs_of_parse parsed
  obtain ⟨lead, rest, same, first, changed⟩ := replaceFirst_of_occurs nonempty occurs newModule
  exact ⟨lead, rest, same, first, by rw [moved, changed]⟩

/-- A disk with a file, another one at its new path, and a third that depends on it. -/
def occupied (atNew : Text) : World where
  disk :=
    ⟨⟨[(["r".toList], .directory),
      (["r".toList, "a.clj".toList], .file (.text "(ns a)\n(def x 1)".toList)),
      (["r".toList, "b.clj".toList], .file (.text atNew)),
      (["r".toList, "d.clj".toList], .file (.text "(ns d (:require a))".toList))],
      of_decide_eq_true rfl⟩,
      .ofLocation []⟩
  locked := []
  events := []

/-- The rename of that file over the other one. -/
def occupiedRenamed (atNew : Text) : Except Failure (List Text) × World :=
  (oneRoot.renameFile "/r/a.clj".toList "/r/b.clj".toList).run (occupied atNew)

/-- A file that does not depend on the module may be at the new path: it is replaced, and the moved
file has the new name where the old one came first. -/
theorem renameFile_moved_text_occupied :
    ∃ lead rest, "(ns a)\n(def x 1)".toList = lead ++ ("a".toList ++ rest) ∧
      occursBefore "a".toList lead.length "(ns a)\n(def x 1)".toList = false ∧
      (occupiedRenamed "(ns b)".toList).2.disk.read "/r/b.clj".toList =
        .ok (.text (lead ++ ("b".toList ++ rest))) := by
  have parsed : Declaration.parse "(ns a)\n(def x 1)".toList = .ok ⟨"a".toList, [], [], []⟩ := by
    decide +kernel
  have resolved : ((oneRoot.resolve "/r/b.clj".toList).run (occupied "(ns b)".toList)).1 =
      .ok "b".toList := by decide +kernel
  have listed : ((oneRoot.dependentFiles "/r/a.clj".toList).run (occupied "(ns b)".toList)).1 =
      .ok ["/r/d.clj".toList] := by decide +kernel
  have renamed : (occupiedRenamed "(ns b)".toList).1 =
      .ok ["/r/b.clj".toList, "/r/d.clj".toList] := by decide +kernel
  have run : occupiedRenamed "(ns b)".toList =
      (.ok ["/r/b.clj".toList, "/r/d.clj".toList], (occupiedRenamed "(ns b)".toList).2) := by
    rw [← renamed]
  have source : isSource oneRoot.extensions "/r/a.clj".toList = true := by decide +kernel
  have read : (occupied "(ns b)".toList).disk.read "/r/a.clj".toList =
      .ok (.text "(ns a)\n(def x 1)".toList) := by decide +kernel
  obtain ⟨newModule, dependents, named, depending, survives, -⟩ :=
    renameFile_moved_text source read parsed run
  obtain rfl := Except.ok.inj (named.symm.trans resolved)
  obtain rfl := Except.ok.inj (depending.symm.trans listed)
  exact survives (by decide +kernel)

/-- The file that is replaced depends on the renamed one: the text of the renamed file is lost, and
the other text is found at its place with the new name required. -/
theorem occupied_by_dependent_lost :
    (occupiedRenamed "(ns b (:require a))".toList).1 =
        .ok ["/r/b.clj".toList, "/r/d.clj".toList] ∧
      (occupiedRenamed "(ns b (:require a))".toList).2.disk.read "/r/b.clj".toList =
        .ok (.text "(ns b\n  (:require b))".toList) := by
  decide +kernel

end Project

end Relocate
