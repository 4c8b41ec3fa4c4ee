import Relocate.Proofs.ModulePaths
import Relocate.Proofs.Rename.Listing
import Relocate.Proofs.Rename.Pruning
import Relocate.Proofs.Rename.Steps

/-!
# Paths that are normalized again

The source roots are normalized when they are listed, and once more when a path or a directory is
compared with them. The paths of a rename are normalized when they are given, and those of the files
written once more when they are listed. What comes out is compared as text.

The second time changes nothing exactly if the first one gave a normal path, and after the second
time the path is normal in any case (`normalize_settles`). So every path that a rename lists is
normal, and roots and paths with no more backslashes than stand between names may be normalized in
advance.
-/
namespace Relocate

open Action

section Roots

variable {cwd later path : Text} {roots paths : List Text}

/-- Roots that are normal stay as they are. -/
theorem map_normalize_of_isNormal (normal : ∀ root ∈ roots, Path.isNormal root = true)
    (cwd : Text) : roots.map (Path.normalize cwd) = roots :=
  (List.map_congr_left fun root member => normalize_of_isNormal (normal root member) cwd).trans
    (List.map_id roots)

/-- Normal roots, each listed once, are taken as they are. -/
theorem ofPaths_of_isNormal (normal : ∀ root ∈ roots, Path.isNormal root = true)
    (nodup : roots.Nodup) (cwd : Text) : SourceRoots.ofPaths cwd roots = .fixed roots := by
  rw [SourceRoots.ofPaths, map_normalize_of_isNormal normal, Text.distinct_of_nodup nodup]

/-- A normalized path has the same module below normalized roots as the path itself has below the
roots as they were given. -/
theorem resolveModule_normalized (normal : ∀ root ∈ roots, Path.isNormal root = true)
    (target : Path.isNormal (Path.normalize cwd path) = true)
    (same : ∀ root, root ∈ roots ↔ root ∈ paths.map (Path.normalize cwd)) :
    resolveModule later roots (Path.normalize cwd path) = resolveModule cwd paths path := by
  have fixed := normalize_of_isNormal target later
  -- Normal paths do not depend on the current directory, so the first step may change it.
  have again : shortestRemainder? later roots (Path.normalize cwd path) =
      shortestRemainder? cwd roots path := by
    rw [shortestRemainder?, shortestRemainder?, fixed]
    refine congrArg shortest? (List.filterMap_congr fun root member => ?_)
    rw [normalize_of_isNormal (normal root member), normalize_of_isNormal (normal root member)]
  have chosen : shortestRemainder? cwd roots path = shortestRemainder? cwd paths path :=
    shortestRemainder?_congr fun root => by rw [map_normalize_of_isNormal normal, same]
  rw [resolveModule_eq, resolveModule_eq, again, chosen, fixed]

end Roots

/-- The path is absolute and holds no backslash. -/
def Path.isSlashed (path : Text) : Bool := isAbsolute path && !path.contains '\\'

section Slashed

variable {path normal : Text}

/-- A path with slashes only is absolute and has no backslash. -/
theorem isSlashed_iff :
    Path.isSlashed path = true ↔ Path.isAbsolute path = true ∧ '\\' ∉ path := by
  simp [Path.isSlashed]

/-- Normalizing leaves slashes only: the backslashes are replaced last. -/
theorem isSlashed_normalize {cwd : Text} (absolute : Path.isAbsolute cwd = true) (path : Text) :
    Path.isSlashed (Path.normalize cwd path) = true :=
  isSlashed_iff.mpr ⟨Path.isAbsolute_normalize absolute path,
    Text.not_mem_replaceChar (by decide) _⟩

/-- From a disk, a path is normalized to an absolute one without backslashes. -/
theorem isSlashed_of_normalize {disk : Disk} (normalized : disk.normalize path = .ok normal) :
    Path.isSlashed normal = true := by
  obtain ⟨start, absolute, rfl⟩ := Project.exists_start_of_normalize normalized
  exact isSlashed_normalize absolute path

/-- Such a path becomes a normal one when it is normalized again. -/
theorem isNormal_of_isSlashed {disk : Disk} (slashed : Path.isSlashed path = true)
    (normalized : disk.normalize path = .ok normal) : Path.isNormal normal = true := by
  obtain ⟨absolute, clean⟩ := isSlashed_iff.mp slashed
  rw [Disk.normalize_of_absolute absolute] at normalized
  rw [← Except.ok.inj normalized]
  exact isNormal_normalize absolute clean

/-- What several paths are normalized to comes from one of them each. -/
theorem exists_of_mem_normalizeAll {world : World} {paths normals : List Text}
    (asked : ((normalizeAll paths).run world).1 = .ok normals) :
    ∀ normal ∈ normals, ∃ path ∈ paths, world.disk.normalize path = .ok normal := by
  have each := normalizeAll_ok asked
  clear asked
  induction each with
  | nil => exact fun _ member => absurd member List.not_mem_nil
  | cons first _ inductionHypothesis =>
    intro normal member
    obtain rfl | later := List.mem_cons.mp member
    · exact ⟨_, List.mem_cons_self .., first⟩
    · obtain ⟨path, inside, normalized⟩ := inductionHypothesis normal later
      exact ⟨path, List.mem_cons_of_mem _ inside, normalized⟩

/-- Paths that the disk has normalized have slashes only. -/
theorem isSlashed_of_mem_normalizeAll {world : World} {paths normals : List Text}
    (asked : ((normalizeAll paths).run world).1 = .ok normals) :
    ∀ normal ∈ normals, Path.isSlashed normal = true := by
  intro normal member
  obtain ⟨path, -, normalized⟩ := exists_of_mem_normalizeAll asked normal member
  exact isSlashed_of_normalize normalized

end Slashed

namespace Project

section Written

variable {project : Project} {world after : World} {old new : Text} {written : List Text}

/-- The files that are written with a renamed one come from a scan, by normalized paths. -/
theorem isSlashed_dependentFiles {dependents : List Text}
    (asked : ((project.dependentFiles old).run world).1 = .ok dependents) :
    ∀ path ∈ dependents, Path.isSlashed path = true := by
  intro path member
  obtain ⟨-, rfl⟩ | ⟨module, graph, -, built, rfl⟩ := dependentFiles_ok asked
  · exact absurd member List.not_mem_nil
  · obtain ⟨roots, listed, -⟩ := graph_ok_iff.mp built
    obtain ⟨scanned, -⟩ := (mem_dependentsOf_graph listed built).mp member
    obtain ⟨-, root, -, -, walked⟩ := root_of_mem_scan scanned
    obtain ⟨file, -, rfl⟩ := List.mem_map.mp walked
    exact isSlashed_normalize rfl file

/-- A rename that succeeds has found the files to write. -/
theorem exists_dependentFiles
    (run : (project.renameFile old new).run world = (.ok written, after)) :
    ∃ dependents, ((project.dependentFiles old).run world).1 = .ok dependents := by
  obtain ⟨found, start, declared, disk, rest⟩ :=
    (reads_declaredModule project old).run_bind_ok rfl run
  cases found with
  | none => exact ⟨[], dependentFiles_none declared⟩
  | some module =>
    obtain ⟨plan, ready, planned, -, -⟩ :=
      (reads_plan project old new module).run_bind_ok disk rest
    obtain ⟨newModule, graph, texts, -, built, -⟩ := plan_ok planned
    exact ⟨_, dependentFiles_some declared built⟩

/-- The files that a rename lists have slashes only: the new path is given so, and those of the
dependents were normalized in the scan. -/
theorem isSlashed_renameFile (slashed : Path.isSlashed new = true)
    (run : (project.renameFile old new).run world = (.ok written, after)) :
    ∀ path ∈ written, Path.isSlashed path = true := by
  intro path member
  obtain ⟨dependents, asked⟩ := exists_dependentFiles run
  obtain rfl | dependent := (mem_written_renameFile asked run).mp member
  · exact slashed
  · exact isSlashed_dependentFiles asked path dependent

/-- The files that several renames list have slashes only. By induction on the renames. -/
theorem isSlashed_renameEach {moves : List (Text × Text)}
    (slashed : ∀ move ∈ moves, Path.isSlashed move.2 = true)
    (run : (project.renameEach moves).run world = (.ok written, after)) :
    ∀ path ∈ written, Path.isSlashed path = true := by
  refine renameEach_collects id
    (fun _ listed _ => ∀ path ∈ listed, Path.isSlashed path = true) (by simp) ?_
    (by rwa [List.map_id])
  rintro done move later current next before written rfl kept renamed path member
  obtain earlier | now := List.mem_append.mp member
  · exact kept path earlier
  · exact isSlashed_renameFile (slashed move (by simp)) renamed path now

/-- The new paths of the files of a directory continue the path of the new directory. Such a path is
the start of the new directory and the end of a normalized one, neither of which has a backslash. -/
theorem isSlashed_directoryMoves {moves : List (Text × Text)} (slashed : Path.isSlashed new = true)
    (listed : ((directoryMoves old new).run world).1 = .ok moves) :
    ∀ move ∈ moves, Path.isSlashed move.2 = true := by
  obtain ⟨files, first, -, disk, rest⟩ :=
    (asks_walk _).run_bind_ok rfl (Prod.ext listed rfl)
  obtain ⟨normals, second, asked, -, rest⟩ := (asks_normalizeAll files).run_bind_ok disk rest
  obtain rfl := Except.ok.inj (congrArg Prod.fst rest)
  obtain ⟨absolute, clean⟩ := isSlashed_iff.mp slashed
  rw [List.forall_mem_map]
  intro file member
  obtain ⟨-, fileClean⟩ := isSlashed_iff.mp (isSlashed_of_mem_normalizeAll asked file member)
  change Path.isSlashed (directoryStart new ++ file.drop (directoryStart old).length) = true
  obtain ⟨start, slash⟩ := Path.isAbsolute_iff.mp (isAbsolute_directoryStart absolute)
  refine isSlashed_iff.mpr ⟨by rw [slash]; rfl, ?_⟩
  rw [List.mem_append, not_or]
  exact ⟨not_mem_directoryStart (by decide) clean,
    fun held => fileClean (List.mem_of_mem_drop held)⟩

/-- The files that renaming a directory lists have slashes only. -/
theorem isSlashed_renameDirectory (slashed : Path.isSlashed new = true)
    (run : (project.renameDirectory old new).run world = (.ok written, after)) :
    ∀ path ∈ written, Path.isSlashed path = true := by
  obtain ⟨moves, start, each, listed, -, renamed, rfl⟩ := renameDirectory_lists run
  have moved := isSlashed_directoryMoves slashed listed
  intro path member
  obtain ⟨other, inside, rfl⟩ := List.mem_map.mp (Text.mem_sortedSet.mp member)
  cases found : (OrderedMap.ofList moves).get? other with
  | none => exact isSlashed_renameEach moved renamed other inside
  | some target => exact moved (other, target) (OrderedMap.mem_of_get?_ofList found)

/-- Every path that a rename lists is normal. The listed paths are normalized from paths that start
with a slash and have no backslash, for which once is enough. -/
theorem isNormal_rename {listed : List Text} {oldPath newPath : Text}
    (oldNormal : world.disk.normalize old = .ok oldPath)
    (newNormal : world.disk.normalize new = .ok newPath)
    (run : (project.rename (some old) (some new)).run world = (.ok listed, after)) :
    ∀ path ∈ listed, Path.isNormal path = true := by
  obtain ⟨file, start, finished, written, normals, -, -, ran, asked, rfl⟩ :=
    rename_ok oldNormal newNormal run
  have slashed := isSlashed_of_normalize newNormal
  have all : ∀ path ∈ written, Path.isSlashed path = true := by
    split at ran
    · exact isSlashed_renameDirectory slashed ran
    · split at ran
      · obtain ⟨each, middle, renamed, rest⟩ := run_bind_ok_iff.mp ran
        obtain ⟨same, -⟩ := Prod.mk.inj rest
        obtain rfl := Except.ok.inj same
        intro path member
        obtain rfl | inside := List.mem_cons.mp (Text.mem_sortedSet.mp member)
        · exact slashed
        · exact isSlashed_renameFile slashed renamed path inside
      · simp at ran
  intro path member
  obtain ⟨other, inside, normalized⟩ :=
    exists_of_mem_normalizeAll asked path ((Text.sort_perm _).mem_iff.mp member)
  exact isNormal_of_isSlashed (all other inside) normalized

end Written

section Arguments

variable {project : Project} {world : World} {old new oldPath newPath : Text}

/-- A path that starts at the top is not blank. -/
theorem isBlank_of_isAbsolute {path : Text} (absolute : Path.isAbsolute path = true) :
    Text.isBlank path = false := by
  obtain ⟨rest, rfl⟩ := Path.isAbsolute_iff.mp absolute
  rw [Text.isBlank, List.all_cons, show Text.isBlankChar '/' = false by decide, Bool.false_and]

/-- Renaming between normal paths is what renaming between the given ones is. A rename looks at its
arguments only to see that they are not blank and to normalize them. -/
theorem rename_normalized (oldPlain : Text.isBlank old = false)
    (newPlain : Text.isBlank new = false) (oldNormal : world.disk.normalize old = .ok oldPath)
    (newNormal : world.disk.normalize new = .ok newPath) (oldSettled : Path.isNormal oldPath = true)
    (newSettled : Path.isNormal newPath = true) :
    (project.rename (some oldPath) (some newPath)).run world =
      (project.rename (some old) (some new)).run world := by
  have again {path : Text} (settled : Path.isNormal path = true) :
      world.disk.normalize path = .ok path := by
    rw [Disk.normalize_of_absolute (isAbsolute_of_isNormal settled), normalize_of_isNormal settled]
  have plain {path : Text} (settled : Path.isNormal path = true) : Text.isBlank path = false :=
    isBlank_of_isAbsolute (isAbsolute_of_isNormal settled)
  rw [rename, rename, run_bind, run_bind, run_pathArgument oldPlain,
    run_pathArgument (plain oldSettled)]
  simp only
  rw [run_bind, run_bind, run_pathArgument newPlain, run_pathArgument (plain newSettled)]
  simp only
  rw [run_bind, run_bind, run_normalize oldNormal, run_normalize (again oldSettled)]
  simp only
  simp [run_normalize newNormal, run_normalize (again newSettled)]

end Arguments

end Project

/-- A path is normalized to one without backslashes. Normalizing that again changes nothing exactly
if it is normal, which is so exactly if the backslashes of the path stand between names. The second
time it becomes normal in any case. With such paths, source roots may be normalized again, a path
and the roots may be normalized before its module is resolved, and pruning compares directories with
the roots as they are listed. A rename between normal paths is what it is between the paths they
come from, and every path that a rename lists is normal. A path in normal form is its slashes and
names, on which normalizing does nothing. The first time can fail to reach it only because
backslashes are turned into slashes last. -/
theorem normalize_settles {cwd : Text} (absolute : Path.isAbsolute cwd = true) :
    (∀ path later,
      '\\' ∉ Path.normalize cwd path ∧
      (Path.normalize later (Path.normalize cwd path) = Path.normalize cwd path ↔
        Path.isNormal (Path.normalize cwd path) = true) ∧
      (Path.isNormal (Path.normalize cwd path) = true ↔
        Path.separatesNames (Path.append cwd path) = true) ∧
      ('\\' ∉ Path.append cwd path → Path.separatesNames (Path.append cwd path) = true) ∧
      Path.isNormal (Path.normalize later (Path.normalize cwd path)) = true) ∧
    (∀ paths, (∀ path ∈ paths, Path.separatesNames (Path.append cwd path) = true) →
      ∃ roots, SourceRoots.ofPaths cwd paths = .fixed roots ∧
        ∀ later, SourceRoots.ofPaths later roots = .fixed roots ∧
          (∀ path, Path.separatesNames (Path.append cwd path) = true →
            resolveModule later roots (Path.normalize cwd path) = resolveModule cwd paths path) ∧
          ∀ (project : Project) directory world, project.roots = .fixed roots →
            (project.prune directory).run world =
              (Project.pruneWith (roots.map Text.lower) (directory.length + 1) directory).run
                world) ∧
    ∀ (project : Project) (world : World) old new oldPath newPath,
      world.disk.normalize old = .ok oldPath → world.disk.normalize new = .ok newPath →
      (Text.isBlank old = false → Text.isBlank new = false →
        Path.isNormal oldPath = true → Path.isNormal newPath = true →
        (project.rename (some oldPath) (some newPath)).run world =
          (project.rename (some old) (some new)).run world) ∧
      ∀ listed after, (project.rename (some old) (some new)).run world = (.ok listed, after) →
        ∀ path ∈ listed, Path.isNormal path = true := by
  refine ⟨fun path later => ?_, fun paths settled => ?_,
    fun project world old new oldPath newPath oldNormal newNormal => ⟨?_, ?_⟩⟩
  · have joined := Path.isAbsolute_append absolute path
    have settles := isNormal_normalize_iff absolute path
    obtain ⟨top, clean⟩ := isSlashed_iff.mp (isSlashed_normalize absolute path)
    refine ⟨clean, normalize_eq_self_iff top, settles, fun noBackslash => settles.mp ?_,
      isNormal_normalize top clean⟩
    obtain ⟨named, normal⟩ := normalize_joined _ _ joined noBackslash
    exact isNormal_iff.mpr ⟨_, Path.root_absolute joined, _, named, normal⟩
  · have listed (root : Text) : root ∈ Text.distinct (paths.map (Path.normalize cwd)) ↔
        root ∈ paths.map (Path.normalize cwd) := Text.mem_distinct
    have normal : ∀ root ∈ Text.distinct (paths.map (Path.normalize cwd)),
        Path.isNormal root = true := by
      intro root member
      obtain ⟨path, inside, rfl⟩ := List.mem_map.mp ((listed root).mp member)
      exact (isNormal_normalize_iff absolute path).mpr (settled path inside)
    refine ⟨_, rfl, fun later => ⟨ofPaths_of_isNormal normal (Text.nodup_distinct _) later,
      fun path names => ?_, fun project directory world fixed => ?_⟩⟩
    · have pathNormal := (isNormal_normalize_iff absolute path).mpr names
      exact resolveModule_normalized normal pathNormal listed
    · have rooted := fun root member => isAbsolute_of_isNormal (normal root member)
      rw [Project.run_prune_fixed fixed rooted, map_normalize_of_isNormal normal]
  · exact fun oldPlain newPlain => Project.rename_normalized oldPlain newPlain oldNormal newNormal
  · exact fun listed after run => Project.isNormal_rename oldNormal newNormal run

/-- Between backslashes, `..` is a part of a name until the backslashes become slashes. It is taken
back only when the path is normalized again. -/
theorem backslashedParent_left :
    let once := Path.normalize "/w".toList "/a\\..\\b".toList
    Path.isNormal "/w".toList = true ∧ once = "/a/../b".toList ∧
      ['.', '.'] ∈ Path.components once ∧ Path.normalize "/w".toList once = "/b".toList ∧
      Path.normalize "/w".toList once ≠ once := by
  decide +kernel

/-- A file in the current directory. -/
def fileHere : World where
  disk :=
    ⟨⟨[(["r".toList], .directory),
      (["r".toList, "x.txt".toList], .file (.text "x".toList))], by decide⟩,
      .ofLocation ["r".toList]⟩
  locked := []
  events := []

/-- Its rename, to a path with a backslash. -/
def fileHereRenamed : Except Failure (List Text) × World :=
  (Project.oneRoot.rename (some "x.txt".toList) (some "s\\y.txt".toList)).run fileHere

/-- A root that is given twice and a path below it, with backslashes between names, and the rename
above. -/
theorem normalize_settles_backslashed :
    Path.normalize ['/'] (Path.normalize "/w".toList "../a\\b//./c.clj".toList) =
        "/a/b/c.clj".toList ∧
      SourceRoots.ofPaths "/w".toList ["../a\\b".toList, "/a/b/".toList] =
        .fixed ["/a/b".toList] ∧
      SourceRoots.ofPaths ['/'] ["/a/b".toList] = .fixed ["/a/b".toList] ∧
      resolveModule ['/'] ["/a/b".toList] "/a/b/c.clj".toList =
        resolveModule "/w".toList ["../a\\b".toList, "/a/b/".toList] "../a\\b//./c.clj".toList ∧
      (∀ world, ((Project.mk (.fixed ["/a/b".toList]) []).prune "/a/B".toList).run world =
        (Project.pruneWith ["/a/b".toList] 5 "/a/B".toList).run world) ∧
      (Project.oneRoot.rename (some "/r/x.txt".toList) (some "/r/s/y.txt".toList)).run fileHere =
        fileHereRenamed ∧
      fileHereRenamed.1 = .ok ["/r/s/y.txt".toList] ∧
      Path.isNormal "/r/s/y.txt".toList = true := by
  obtain ⟨single, several, renames⟩ := @normalize_settles "/w".toList (by decide +kernel)
  have once : Path.normalize "/w".toList "../a\\b//./c.clj".toList = "/a/b/c.clj".toList := by
    decide +kernel
  have made : SourceRoots.ofPaths "/w".toList ["../a\\b".toList, "/a/b/".toList] =
      .fixed ["/a/b".toList] := by
    decide +kernel
  have listed : fileHereRenamed.1 = .ok ["/r/s/y.txt".toList] := by decide +kernel
  have run : fileHereRenamed = (.ok ["/r/s/y.txt".toList], fileHereRenamed.2) := by rw [← listed]
  obtain ⟨-, settled, -⟩ := single "../a\\b//./c.clj".toList ['/']
  obtain ⟨roots, same, again⟩ := several ["../a\\b".toList, "/a/b/".toList] (by decide +kernel)
  obtain rfl := SourceRoots.fixed.inj (made.symm.trans same)
  obtain ⟨kept, resolved, pruned⟩ := again ['/']
  obtain ⟨renamed, normal⟩ := renames Project.oneRoot fileHere "x.txt".toList "s\\y.txt".toList
    "/r/x.txt".toList "/r/s/y.txt".toList (by decide +kernel) (by decide +kernel)
  have lowered : ["/a/b".toList].map Text.lower = ["/a/b".toList] := by decide +kernel
  rw [lowered] at pruned
  refine ⟨(settled.mpr (by decide +kernel)).trans once, made, kept, ?_,
    fun world => pruned (Project.mk (.fixed ["/a/b".toList]) []) "/a/B".toList world rfl,
    renamed (by decide +kernel) (by decide +kernel) (by decide +kernel) (by decide +kernel), listed,
    normal _ _ run _ (List.mem_singleton_self _)⟩
  rw [← once]
  exact resolved _ (by decide +kernel)

end Relocate
