import Relocate.Proofs.Declaration.OwnName
import Relocate.Proofs.Rename.Moves

/-!
# The name that a renamed file declares

A renamed file gets its new name by text: the first occurrence of the old name is replaced, wherever
it stands. The file declares the new name afterwards, and its declaration is otherwise what it was,
if the old name does not occur in front of the place where it is declared: `renameFile_declares`.
A comment in front of the declaration that mentions the old name is enough to leave the declared
name as it was.

A file that depends on the renamed module is written last. If one leads to the new path, its text is
what is found there; this takes a file at that place before the rename.
-/
namespace Relocate.Project

open Action

section

variable {project : Project} {world after : World} {old new text newModule : Text}
  {declaration : Declaration} {dependents written : List Text}

/-- A rename that works has found the new module and the files that depend on the old one. At the
new path is the text that was written there last: the new one of a dependent that leads there, or
else the file's own with the first occurrence of its name replaced. -/
theorem renameFile_written_last (source : isSource project.extensions old = true)
    (read : world.disk.read old = .ok (.text text))
    (parsed : Declaration.parse text = .ok declaration)
    (run : (project.renameFile old new).run world = (.ok written, after)) :
    ∃ newModule dependents, ((project.resolve new).run world).1 = .ok newModule ∧
      ((project.dependentFiles old).run world).1 = .ok dependents ∧
      ((∃ path ∈ dependents, ∃ replaced renamed,
          Path.destination path = world.disk.destination new ∧
          world.disk.read path = .ok (.text replaced) ∧
          renameInText declaration.module newModule replaced = .ok renamed ∧
          after.disk.read new = .ok (.text renamed)) ∨
        (∀ path ∈ dependents, Path.destination path ≠ world.disk.destination new) ∧
          after.disk.read new =
            .ok (.text (Text.replaceFirst declaration.module newModule text))) := by
  obtain ⟨found, middle, declared, -, -⟩ := (reads_declaredModule project old).run_bind_ok rfl run
  obtain rfl := declaredModule_of_read source read parsed declared
  obtain ⟨place, here⟩ := Disk.find_of_read read
  obtain ⟨newModule, graph, resolved, built, ⟨content, there⟩, -, files⟩ :=
    renameFile_files here declared run
  refine ⟨newModule, _, resolved, dependentFiles_some declared built, ?_⟩
  have held := (Disk.nodeAt_file_iff.mp (Disk.find_file_iff.mp there).2.1).2
  rw [Disk.read_of_find there]
  obtain ⟨path, dependent, replaced, renamed, leads, earlier, worked, kept⟩ | ⟨apart, kept⟩ :=
    files (world.disk.destination new)
  · exact .inl ⟨path, dependent, replaced, renamed, leads, earlier, worked,
      congrArg Except.ok (Option.some.inj (held.symm.trans kept))⟩
  · rw [if_pos rfl] at kept
    exact .inr ⟨apart, congrArg Except.ok (Option.some.inj (held.symm.trans kept))⟩

/-- Unless a dependent leads there, the text at the new path is that of the file with the first
occurrence of its name replaced. -/
theorem renameFile_text (source : isSource project.extensions old = true)
    (read : world.disk.read old = .ok (.text text))
    (parsed : Declaration.parse text = .ok declaration)
    (resolved : ((project.resolve new).run world).1 = .ok newModule)
    (listed : ((project.dependentFiles old).run world).1 = .ok dependents)
    (apart : ∀ path ∈ dependents, Path.destination path ≠ world.disk.destination new)
    (run : (project.renameFile old new).run world = (.ok written, after)) :
    after.disk.read new = .ok (.text (Text.replaceFirst declaration.module newModule text)) := by
  obtain ⟨module, paths, sameModule, sameFiles, last⟩ :=
    renameFile_written_last source read parsed run
  obtain rfl := Except.ok.inj (sameModule.symm.trans resolved)
  obtain rfl := Except.ok.inj (sameFiles.symm.trans listed)
  obtain ⟨path, dependent, -, -, leads, -⟩ | ⟨-, own⟩ := last
  · exact absurd leads (apart path dependent)
  · exact own

end

/-- After a source file has been renamed, and unless a dependent leads to its new path, the text
there is its own with the first occurrence of the old name replaced. If the old name does not occur
in front of the place where it is declared, this text declares the new name, and all else as before.
The text is what the plan has for the file, and a replaced name is read where the old one was,
because nothing in front of it changes. -/
theorem renameFile_declares {project : Project} {world after : World}
    {old new text newModule : Text} {declaration : Declaration} {dependents written : List Text}
    (source : isSource project.extensions old = true)
    (read : world.disk.read old = .ok (.text text))
    (parsed : Declaration.parse text = .ok declaration)
    (resolved : ((project.resolve new).run world).1 = .ok newModule)
    (reads : readsAsSymbol newModule = true)
    (listed : ((project.dependentFiles old).run world).1 = .ok dependents)
    (apart : ∀ path ∈ dependents, Path.destination path ≠ world.disk.destination new)
    (run : (project.renameFile old new).run world = (.ok written, after)) :
    after.disk.read new = .ok (.text (Text.replaceFirst declaration.module newModule text)) ∧
      ((∀ offset ∈ nameOffset? text, occursBefore declaration.module offset text = false) →
        Declaration.parse (Text.replaceFirst declaration.module newModule text) =
          .ok { declaration with module := newModule }) := by
  constructor
  · exact renameFile_text source read parsed resolved listed apart run
  · intro first
    exact parse_replaceFirst parsed reads first

/-- A disk with a source file whose comment mentions the module that it declares. -/
def commentedName : World where
  disk :=
    ⟨⟨[(["r".toList], .directory), (["r".toList, "a".toList], .directory),
      (["r".toList, "a".toList, "b.clj".toList],
        .file (.text "; a.b module\n(ns a.b)\n".toList))], by decide⟩,
      .ofLocation []⟩
  locked := []
  events := []

/-- The rename of that file. -/
def commentedNameRenamed : Except Failure (List Text) × World :=
  (oneRoot.renameFile "/r/a/b.clj".toList "/r/a/c.clj".toList).run commentedName

/-- The new name goes into the comment, and the file declares the old one at its new path. -/
theorem commentedName_declares_old :
    commentedNameRenamed.1 = .ok ["/r/a/c.clj".toList] ∧
      ((oneRoot.resolve "/r/a/c.clj".toList).run commentedName).1 = .ok "a.c".toList ∧
      ((oneRoot.dependentFiles "/r/a/b.clj".toList).run commentedName).1 = .ok [] ∧
      commentedNameRenamed.2.disk.read "/r/a/c.clj".toList =
        .ok (.text "; a.c module\n(ns a.b)\n".toList) ∧
      (Declaration.parse "; a.c module\n(ns a.b)\n".toList).map Declaration.module =
        .ok "a.b".toList := by
  decide +kernel

/-- The text of a source file with a comment, a form and metadata in front of its name. -/
def annotatedName : Text :=
  "; old\n(def b 1) (ns ^\x7b:doc \"d\"\x7d a (:require x))\n(a/f)".toList

/-- A disk with that file and one that depends on it. -/
def annotatedNameDisk : World where
  disk :=
    ⟨⟨[(["r".toList], .directory), (["r".toList, "a.clj".toList], .file (.text annotatedName)),
      (["r".toList, "d.clj".toList], .file (.text "(ns d (:require a))".toList))], by decide⟩,
      .ofLocation []⟩
  locked := []
  events := []

/-- The rename of that file to a path that starts from the current directory. -/
def annotatedNameRenamed : Except Failure (List Text) × World :=
  (oneRoot.renameFile "/r/a.clj".toList "r/b/c.clj".toList).run annotatedNameDisk

/-- The name stands behind a comment, a form and metadata, none of which has it, so that the first
occurrence is the declared name. -/
theorem renameFile_declares_annotatedName :
    ∃ declaration, Declaration.parse annotatedName = .ok declaration ∧
      annotatedNameRenamed.2.disk.read "r/b/c.clj".toList =
        .ok (.text (Text.replaceFirst declaration.module "b.c".toList annotatedName)) ∧
      Declaration.parse (Text.replaceFirst declaration.module "b.c".toList annotatedName) =
        .ok { declaration with module := "b.c".toList } := by
  have parsed : Declaration.parse annotatedName = .ok ⟨"a".toList,
      [.seq .map [.keyword "doc".toList, .string "d".toList "\"d\"".toList]], [],
      [.references "require".toList [.requirement (.plain "x".toList true)]]⟩ := by
    decide +kernel
  have resolved : ((oneRoot.resolve "r/b/c.clj".toList).run annotatedNameDisk).1 =
      .ok "b.c".toList := by decide +kernel
  have listed : ((oneRoot.dependentFiles "/r/a.clj".toList).run annotatedNameDisk).1 =
      .ok ["/r/d.clj".toList] := by decide +kernel
  have renamed : annotatedNameRenamed.1 = .ok ["/r/d.clj".toList, "r/b/c.clj".toList] := by
    decide +kernel
  have run : annotatedNameRenamed =
      (.ok ["/r/d.clj".toList, "r/b/c.clj".toList], annotatedNameRenamed.2) := by
    rw [← renamed]
  have source : isSource oneRoot.extensions "/r/a.clj".toList = true := by decide +kernel
  have held : annotatedNameDisk.disk.read "/r/a.clj".toList = .ok (.text annotatedName) := by
    decide +kernel
  have apart : ∀ path ∈ ["/r/d.clj".toList],
      Path.destination path ≠ annotatedNameDisk.disk.destination "r/b/c.clj".toList := by
    decide +kernel
  obtain ⟨read, declares⟩ :=
    renameFile_declares source held parsed resolved (by decide) listed apart run
  exact ⟨_, parsed, read, declares (by decide +kernel)⟩

end Relocate.Project
