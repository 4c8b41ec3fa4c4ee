import Mathlib.Data.List.Nodup
import Relocate.Proofs.Rename.Consistency

/-!
# The dependents of a module, found by a direct scan

The graph of a project finds the dependents of a module through the modules that depend on it and
the files of those modules. The same files are found one by one: a file depends on a module exactly
if it is a source file below one of the roots and its own declaration refers to the module. No file
is found twice, however many roots it lies below and whatever else declares its module.
-/
namespace Relocate

namespace OrderedMap

/-- Adding pairs one by one keeps what is under each key a set. -/
theorem nodup_foldl_addMembers (pairs : List (Text × Text)) {map : OrderedMap (List Text)}
    (sets : ∀ key, (map.members key).Nodup) (key : Text) :
    ((pairs.foldl (fun map pair => map.addMembers pair.1 [pair.2]) map).members key).Nodup := by
  induction pairs generalizing map with
  | nil => exact sets key
  | cons pair pairs inductionHypothesis =>
    refine @inductionHypothesis (map.addMembers pair.1 [pair.2]) fun other => ?_
    rw [addMembers, members_insert]
    split
    · exact Text.nodup_sortedSet _
    · exact sets other

/-- What the converse has under a key is a set. -/
theorem nodup_members_converse (relation : OrderedMap (List Text)) (key : Text) :
    ((converse relation).members key).Nodup := by
  refine nodup_foldl_addMembers _ (fun other => ?_) key
  exact List.nodup_nil

end OrderedMap

namespace ModuleGraph

variable {files : List (Text × Declaration)}

/-- No file of a module is listed twice, if no path stands twice. By induction on the files from the
last one, whose path is none of the earlier ones. -/
theorem nodup_modulePaths (distinct : (files.map Prod.fst).Nodup) (module : Text) :
    ((ofFiles files).modulePaths.members module).Nodup := by
  induction files using List.reverseRecOn with
  | nil => exact List.nodup_nil
  | append_singleton files file inductionHypothesis =>
    rw [List.map_append, List.nodup_append] at distinct
    rw [ofFiles_concat, addFile, OrderedMap.members_insert]
    split
    · rename_i same
      subst same
      refine List.nodup_append.mpr ⟨inductionHypothesis distinct.1, List.nodup_singleton _, ?_⟩
      intro path earlier other last
      obtain ⟨declaration, listed, -⟩ := mem_modulePaths.mp earlier
      rw [List.mem_singleton.mp last]
      exact distinct.2.2 path (List.mem_map_of_mem listed) file.1 (by simp)
    · exact inductionHypothesis distinct.1

/-- The files that depend on a module are listed in order, each once. -/
theorem pairwise_dependentsOf (distinct : (files.map Prod.fst).Nodup) (module : Text) :
    ((ofFiles files).dependentsOf module).Pairwise fun first second =>
      Text.le first second = true ∧ first ≠ second := by
  refine (Text.pairwise_sort _).and ((Text.sort_perm _).nodup_iff.mpr ?_)
  have once := OrderedMap.nodup_members_converse (ofFiles files).dependencies module
  refine List.nodup_flatMap.mpr ⟨fun dependent _ => (nodup_modulePaths distinct dependent).filter _,
    once.imp fun {dependent other} apart path first second => ?_⟩
  -- A path stands once, so the two modules that its file declares are one.
  obtain ⟨declaration, listed, rfl⟩ := mem_modulePaths.mp (List.mem_filter.mp first).1
  obtain ⟨again, listedAgain, rfl⟩ := mem_modulePaths.mp (List.mem_filter.mp second).1
  have same : (path, declaration) = (path, again) :=
    List.inj_on_of_nodup_map distinct listed listedAgain rfl
  exact apart (congrArg (fun file => file.2.module) same)

end ModuleGraph

/-- The path is that of a file below a root, which is a directory. -/
structure Disk.FileBelow (disk : Disk) (root path : Text) : Prop where
  directory : disk.isDirectory root = true
  file : ∃ names content, names ≠ [] ∧ path = Location.path (Path.destination root ++ names) ∧
    disk.tree.fileAt (Path.destination root ++ names) = some content

section Below

variable {disk : Disk} {extensions : List Text} {roots : List Location} {path : Text}
  {content : Content}

/-- A file that can be read is a source file below the roots exactly if it is below one of them and
has one of the extensions. -/
theorem sourceAt_iff_fileBelow (extensions : List Text) (named : disk.FilesNamed)
    (rootsNamed : ∀ root ∈ roots, Location.Named root) (read : disk.read path = .ok content) :
    (∃ location, path = Location.path location ∧ disk.SourceAt extensions roots location) ↔
      isSource extensions path = true ∧ ∃ root ∈ roots.map Location.path,
        disk.FileBelow root path := by
  constructor
  · rintro ⟨location, rfl, source, ⟨held, file⟩, root, member, names, nonempty, rfl, found, -⟩
    refine ⟨source, root.path, List.mem_map_of_mem member, by simp [Disk.isDirectory, found], ?_⟩
    rw [destination_path (rootsNamed root member)]
    exact ⟨names, held, nonempty, rfl, file⟩
  · rintro ⟨source, other, listed, directory, names, held, proper, rfl, file⟩
    obtain ⟨root, member, rfl⟩ := List.mem_map.mp listed
    have rootNamed := rootsNamed root member
    rw [destination_path rootNamed] at source read file ⊢
    have namesNamed : Location.Named names := fun name inside =>
      named _ _ file name (List.mem_append_right _ inside)
    obtain ⟨place, found⟩ := Disk.find_of_read read
    obtain ⟨-, fits, -⟩ := Disk.followFrom_ok_iff.mp (Disk.find_file_iff.mp found).1
    have shorter := size_pathBelow_dropLast root.path namesNamed.isSegment
    rw [pathBelow_path rootNamed namesNamed proper] at shorter
    refine ⟨_, rfl, source, ⟨held, file⟩, root, member, names, proper, rfl, ?_, shorter.trans fits⟩
    unfold Disk.isDirectory at directory
    split at directory
    · rename_i spot there
      obtain ⟨located, -⟩ := Disk.find_directory_iff.mp there
      simp [there, Disk.locate_absolute rfl located, rootNamed]
    · simp at directory

end Below

/-- The files that depend on a module are listed in order, each once. They are exactly the files
below roots that are directories which have one of the extensions, hold a text with a usable
declaration, and refer to the module in it. The graph is that of the scanned files, and the scan
meets the source files below the roots, once each; the list is sorted from what the graph has. -/
theorem dependentsOf_graph_iff {project : Project} {world : World} {graph : ModuleGraph}
    {roots : List Text} (ordinary : project.OrdinaryTree world.disk)
    (listed : (project.roots.list.run world).1 = .ok roots)
    (built : (project.graph.run world).1 = .ok graph) (module : Text) :
    (graph.dependentsOf module).Pairwise
        (fun first second => Text.le first second = true ∧ first ≠ second) ∧
      ∀ path, path ∈ graph.dependentsOf module ↔
        (∃ root ∈ roots, world.disk.FileBelow root path) ∧
          isSource project.extensions path = true ∧
          ∃ text declaration, world.disk.read path = .ok (.text text) ∧
            Declaration.parse text = .ok declaration ∧ module ∈ declaration.dependencies := by
  have named := ordinary.filesNamed
  obtain ⟨locations, rootsNamed, fixed, rfl⟩ := ordinary.exists_listed listed
  constructor
  · obtain ⟨_, -, -, -, rfl⟩ := graph_ok_iff.mp built
    exact ModuleGraph.pairwise_dependentsOf (nodup_declaredIn (nodup_scan _ _ _ _).1) module
  · intro path
    rw [mem_dependentsOf_iff named rootsNamed fixed built]
    constructor
    · rintro ⟨location, same, source, declaration, declared, refers⟩
      obtain ⟨text, read, parsed⟩ := declarationAt_eq_some_iff.mp declared
      obtain ⟨extension, below⟩ :=
        (sourceAt_iff_fileBelow _ named rootsNamed read).mp ⟨location, same, source⟩
      exact ⟨below, extension, text, declaration, read, parsed, refers⟩
    · rintro ⟨below, extension, text, declaration, read, parsed, refers⟩
      obtain ⟨location, same, source⟩ :=
        (sourceAt_iff_fileBelow _ named rootsNamed read).mpr ⟨extension, below⟩
      exact ⟨location, same, source, declaration,
        declarationAt_eq_some_iff.mpr ⟨text, read, parsed⟩, refers⟩

/-- A project with one root below another, one that is given twice and one that is missing. -/
def nestedRoots : Project :=
  ⟨.ofPaths ['/'] ["/r/s".toList, "/r".toList, "r/s".toList, "/t".toList], defaultExtensions⟩

/-- A disk with two files that declare one module. Of these, one refers to another module. So does a
file that has no source extension. -/
def twins : World where
  disk :=
    ⟨⟨[(["r".toList], .directory),
      (["r".toList, "b.clj".toList], .file (.text "(ns b)".toList)),
      (["r".toList, "c.txt".toList], .file (.text "(ns c (:require a))".toList)),
      (["r".toList, "s".toList], .directory),
      (["r".toList, "s".toList, "B.CLJ".toList],
        .file (.text "(ns b (:require [a :as q]))".toList))], by decide⟩,
      .ofLocation []⟩
  locked := []
  events := []

/-- One file of the two counts, because only it refers to the module, and the file without a source
extension does not. The nested, repeated and missing roots do not matter. -/
theorem dependentsOf_graph_iff_twins :
    ∃ graph, (nestedRoots.graph.run twins).1 = .ok graph ∧
      graph.dependentsOf "a".toList = ["/r/s/B.CLJ".toList] ∧
      "/r/s/B.CLJ".toList ∈ graph.dependentsOf "a".toList ∧
      "/r/c.txt".toList ∉ graph.dependentsOf "a".toList := by
  have ordinary : nestedRoots.OrdinaryTree twins.disk :=
    ⟨⟨[], ["/r/s".toList, "/r".toList, "r/s".toList, "/t".toList], by decide, by decide, rfl⟩,
      by decide⟩
  have found : (nestedRoots.graph.run twins).1.map (fun graph => graph.dependentsOf "a".toList) =
      .ok ["/r/s/B.CLJ".toList] := by decide +kernel
  cases built : (nestedRoots.graph.run twins).1 with
  | error failure =>
    rw [built] at found
    simp [Except.map] at found
  | ok graph =>
    rw [built] at found
    have listed : (nestedRoots.roots.list.run twins).1 =
        .ok ["/r/s".toList, "/r".toList, "/t".toList] := by decide +kernel
    obtain ⟨-, direct⟩ := dependentsOf_graph_iff ordinary listed built "a".toList
    refine ⟨graph, rfl, Except.ok.inj found, (direct _).mpr ⟨?_, by decide +kernel, ?_⟩,
      fun member => ?_⟩
    · exact ⟨"/r".toList, by decide, by decide +kernel, ["s".toList, "B.CLJ".toList],
        .text "(ns b (:require [a :as q]))".toList, by decide, by decide +kernel,
        by decide +kernel⟩
    · exact ⟨"(ns b (:require [a :as q]))".toList, ⟨"b".toList, [], [],
        [.references "require".toList
          [.requirement ⟨"a".toList, some "q".toList, none, false, [], false⟩]]⟩,
        by decide +kernel, by decide +kernel, by decide +kernel⟩
    · exact absurd ((direct _).mp member).2.1 (by decide +kernel)

end Relocate
