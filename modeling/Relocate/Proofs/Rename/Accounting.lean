import Relocate.Proofs.Rename.Transfers

/-!
# Which files a renamed directory leaves, and which are listed

Once all files below a directory have been moved, every file is at one place, and the files that
were written are listed once each, by the path that they have then: `rename_directory_accounts`.
A file that was listed before it was moved is found again by its move.
-/
namespace Relocate

/-- The files that refer to a module, by where they are and what they declare. -/
theorem exists_refersAt_iff {disk : Disk} {extensions : List Text} {roots : List Location}
    {path module : Text} (named : disk.FilesNamed)
    (rootsNamed : ∀ root ∈ roots, Location.Named root) :
    (∃ location, path = Location.path location ∧ disk.RefersAt extensions roots location module) ↔
      (∃ root ∈ roots.map Location.path, disk.FileBelow root path) ∧
        isSource extensions path = true ∧
        ∃ declaration, disk.declarationAt path = some declaration ∧
          module ∈ declaration.dependencies := by
  constructor
  · rintro ⟨location, rfl, declaration, ⟨source, declared⟩, member⟩
    obtain ⟨text, read, -⟩ := declarationAt_eq_some_iff.mp declared
    obtain ⟨extension, below⟩ :=
      (sourceAt_iff_fileBelow _ named rootsNamed read).mp ⟨location, rfl, source⟩
    exact ⟨below, extension, declaration, declared, member⟩
  · rintro ⟨below, extension, declaration, declared, member⟩
    obtain ⟨text, read, -⟩ := declarationAt_eq_some_iff.mp declared
    obtain ⟨location, rfl, source⟩ :=
      (sourceAt_iff_fileBelow _ named rootsNamed read).mpr ⟨extension, below⟩
    exact ⟨location, rfl, declaration, ⟨source, declared⟩, member⟩

/-- A file below a directory that can be read is an entry of the tree. -/
theorem mem_entries_of_read {disk : Disk} {root path : Text} {content : Content}
    (named : disk.FilesNamed) (below : disk.FileBelow root path)
    (read : disk.read path = .ok content) :
    ∃ location, (location, .file content) ∈ disk.tree.entries := by
  obtain ⟨-, names, held, -, rfl, file⟩ := below
  obtain ⟨place, found⟩ := Disk.find_of_read read
  have there := FileTree.fileAt_eq_some_iff.mp (fileAt_of_find (named _ held file) found)
  exact ⟨_, FileTree.mem_entries_of_file there⟩

namespace Project

open Action

/-- The path by which a file is listed in the end: the new one, if the file is moved. -/
def finalPath (old new : Location) (below : List Location) (path : Text) : Text :=
  ((OrderedMap.ofList (below.map (moveAlong old new))).get? path).getD path

section Transfers

variable {project : Project} {start after : World} {roots : List Location}
  {old new names : Location} {below : List Location} {renames : List (Text × Text)}
  {written : List Text}

/-- No file is left at an old path, and one is at every new path. An old location is no new one, so
that nothing has come to it after its file has left. -/
theorem Accounted.moved (transfer : Transfer project start roots old new below)
    (accounted : Accounted start.disk after.disk old new below) (member : names ∈ below) :
    after.disk.isFile (Disk.pathBelow old.path names) = false ∧
      after.disk.isFile (Disk.pathBelow new.path names) = true := by
  obtain ⟨-, content, file⟩ := transfer.files names member
  obtain ⟨-, oldNamed, newNamed, oldPath, newPath⟩ := transfer.paths member
  rw [oldPath, newPath]
  constructor
  · rw [Bool.eq_false_iff]
    intro left
    obtain ⟨place, held, found⟩ := exists_find_of_isFile left
    obtain ⟨other, listed, same⟩ | ⟨outside, -⟩ :=
      (accounted.files _).mp ⟨held, fileAt_of_find oldNamed found⟩
    · exact accounted.arrived_ne file other listed same
    · exact outside names member rfl
  · obtain ⟨held, there⟩ := (accounted.files (new ++ names)).mpr (.inl ⟨names, member, rfl⟩)
    obtain ⟨-, other, place, located⟩ := accounted.arrived names member
    have found := find_path newNamed located
      (FileTree.fileAt_eq_some_iff.mp there)
    simp [Disk.isFile, found]

/-- At any other place there is a file exactly if there was one. -/
theorem Accounted.others (accounted : Accounted start.disk after.disk old new below)
    {location : Location}
    (outside : ∀ names ∈ below, location ≠ old ++ names ∧ location ≠ new ++ names) :
    (after.disk.tree.fileAt location).isSome = (start.disk.tree.fileAt location).isSome := by
  rw [Bool.eq_iff_iff, Option.isSome_iff_exists, Option.isSome_iff_exists, accounted.files]
  constructor
  · rintro (⟨names, member, same⟩ | ⟨-, file⟩)
    · exact absurd same (outside names member).2
    · exact file
  · exact fun file => .inr ⟨fun names member => (outside names member).1, file⟩

/-- The paths of the files that are moved are all different. -/
theorem Transfer.nodup_moves (transfer : Transfer project start roots old new below) :
    ((below.map (moveAlong old new)).map Prod.fst).Nodup := by
  rw [List.map_map]
  refine List.Nodup.map_on (fun first firstListed second secondListed same => ?_) transfer.distinct
  exact List.append_cancel_left
    (path_inj (transfer.paths firstListed).oldNamed (transfer.paths secondListed).oldNamed same)

/-- The final path of a file of the old directory is the one below the new directory. -/
theorem Transfer.finalPath_moved (transfer : Transfer project start roots old new below)
    (member : names ∈ below) :
    finalPath old new below (Location.path (old ++ names)) = Location.path (new ++ names) := by
  have given : (OrderedMap.ofList (below.map (moveAlong old new))).get?
      (Location.path (old ++ names)) = some (Location.path (new ++ names)) :=
    (OrderedMap.get?_ofList_iff transfer.nodup_moves).mpr (List.mem_map_of_mem member)
  rw [finalPath, given, Option.getD_some]

/-- The final path of any other file is its own. -/
theorem Transfer.finalPath_other (transfer : Transfer project start roots old new below)
    {location : Location} (named : location.Named)
    (outside : ∀ names ∈ below, location ≠ old ++ names) :
    finalPath old new below location.path = location.path := by
  have missing : (OrderedMap.ofList (below.map (moveAlong old new))).get? location.path = none := by
    rw [Option.eq_none_iff_forall_ne_some]
    intro value given
    obtain ⟨names, member, same⟩ :=
      List.mem_map.mp ((OrderedMap.get?_ofList_iff transfer.nodup_moves).mp given)
    exact outside names member
      (path_inj (transfer.paths member).oldNamed named (congrArg Prod.fst same)).symm
  rw [finalPath, missing, Option.getD_none]

/-- The files listed in the end: all that have been moved, and of the others those that referred to
a renamed module at first. -/
theorem Underway.mem_listed (transfer : Transfer project start roots old new below)
    (underway : Underway project start roots old new below below renames written after.disk)
    {path : Text} :
    path ∈ written.map (finalPath old new below) ↔
      (∃ names ∈ below, path = Location.path (new ++ names)) ∨
        ∃ location, path = Location.path location ∧ (∀ names ∈ below, location ≠ old ++ names) ∧
          ∃ rename ∈ renames, start.disk.RefersAt project.extensions roots location rename.1 := by
  obtain ⟨-, accounted, -, recorded⟩ := underway
  have arrived : ∀ names ∈ below, ∀ other ∈ below, new ++ names ≠ old ++ other := by
    intro names member other listed same
    obtain ⟨-, content, file⟩ := transfer.files other listed
    exact accounted.arrived_ne file names member same.symm
  rw [List.mem_map]
  constructor
  · rintro ⟨path, listed, rfl⟩
    obtain ⟨location, rfl, ⟨names, member, rfl⟩ | ⟨content, file⟩⟩ := recorded.known path listed
    · rw [transfer.finalPath_other (transfer.paths member).newNamed (arrived names member)]
      exact .inl ⟨names, member, rfl⟩
    · by_cases inside : ∃ names ∈ below, location = old ++ names
      · obtain ⟨names, member, rfl⟩ := inside
        rw [transfer.finalPath_moved member]
        exact .inl ⟨names, member, rfl⟩
      · have outside : ∀ names ∈ below, location ≠ old ++ names := fun names member same =>
          inside ⟨names, member, same⟩
        rw [transfer.finalPath_other (transfer.named location content file) outside]
        exact .inr ⟨location, rfl, outside,
          (recorded.referring location content file outside).mp listed⟩
  · rintro (⟨names, member, rfl⟩ | ⟨location, rfl, outside, rename, renamed, refers⟩)
    · exact ⟨_, recorded.moved names member,
        transfer.finalPath_other (transfer.paths member).newNamed (arrived names member)⟩
    · obtain ⟨declaration, declares, -⟩ := id refers
      obtain ⟨content, file⟩ := declares.source.file
      exact ⟨location.path, (recorded.referring location content file outside).mpr
        ⟨rename, renamed, refers⟩,
        transfer.finalPath_other (transfer.named location content file) outside⟩

/-- All paths that are listed are those of locations. -/
theorem Underway.listed_named (transfer : Transfer project start roots old new below)
    (underway : Underway project start roots old new below below renames written after.disk) :
    ∀ path ∈ Text.sortedSet (written.map (finalPath old new below)),
      ∃ location : Location, location.Named ∧ path = location.path := by
  intro path member
  obtain ⟨names, inside, rfl⟩ | ⟨location, rfl, -, rename, -, refers⟩ :=
    (underway.mem_listed transfer).mp (Text.mem_sortedSet.mp member)
  · exact ⟨new ++ names, (transfer.paths inside).newNamed, rfl⟩
  · exact ⟨location, refers.named transfer.named, rfl⟩

/-- The files that are not moved and referred to a renamed module, by what was on the disk at first.
Locations and paths stand for each other, and the renamed modules are those that the moved files
declare. -/
theorem Underway.referring_iff (transfer : Transfer project start roots old new below)
    (underway : Underway project start roots old new below below renames written after.disk)
    (complete : ∀ names, start.disk.HasFile old.path names → names ∈ below) {path : Text} :
    (∃ location, path = Location.path location ∧ (∀ names ∈ below, location ≠ old ++ names) ∧
        ∃ rename ∈ renames, start.disk.RefersAt project.extensions roots location rename.1) ↔
      (∀ names, start.disk.HasFile old.path names → path ≠ Disk.pathBelow old.path names) ∧
        (∃ root ∈ roots.map Location.path, start.disk.FileBelow root path) ∧
        isSource project.extensions path = true ∧
        ∃ declaration, start.disk.declarationAt path = some declaration ∧
          ∃ names moved newModule,
            project.ModuleBelow start old.path new.path names moved newModule ∧
            moved.module ∈ declaration.dependencies := by
  constructor
  · rintro ⟨location, rfl, outside, rename, renamed, refers⟩
    obtain ⟨names, -, moved, declares, same⟩ := (underway.reassigned rename).mp renamed
    obtain ⟨inside, source, declaration, declared, depends⟩ :=
      (exists_refersAt_iff transfer.named transfer.rootsNamed).mp ⟨location, rfl, refers⟩
    refine ⟨fun other has here => ?_, inside, source, declaration, declared, names, moved,
      rename.2, declares, same ▸ depends⟩
    obtain ⟨-, oldNamed, -, oldPath, -⟩ := transfer.paths (complete other has)
    exact outside other (complete other has)
      (path_inj (refers.named transfer.named) oldNamed (here.trans oldPath))
  · rintro ⟨outside, inside, source, declaration, declared, names, moved, newModule, declares,
      depends⟩
    obtain ⟨location, rfl, refers⟩ := (exists_refersAt_iff transfer.named transfer.rootsNamed).mpr
      ⟨inside, source, declaration, declared, depends⟩
    refine ⟨location, rfl, ?_, (moved.module, newModule), ?_, refers⟩
    · rintro other member rfl
      exact outside other (underway.accounted.left other member)
        (transfer.paths member).oldPath.symm
    · exact (underway.reassigned _).mpr
        ⟨names, complete names declares.file, moved, declares, rfl⟩

end Transfers

section Directories

variable {project : Project} {world after : World} {old new : Text} {oldPlace newPlace : Location}
  {listed : List Text}

/-- A directory is renamed by moving the files below its location to the same places below the new
one. The paths that are listed for the directory are those of the locations below it, and each new
path has the same names below the new one. -/
theorem rename_directory (named : world.disk.FilesNamed) (oldNamed : oldPlace.Named)
    (newNamed : newPlace.Named) (oldNormal : world.disk.normalize old = .ok oldPlace.path)
    (newNormal : world.disk.normalize new = .ok newPlace.path)
    (directory : world.disk.isDirectory oldPlace.path = true)
    (run : (project.rename (some old) (some new)).run world = (.ok listed, after)) :
    ∃ (below : List Location) (start finished : World) (each normals : List Text),
      start.disk = world.disk ∧ after.disk = finished.disk ∧ below.Nodup ∧
      (∀ names ∈ below, names ≠ [] ∧
        ∃ content, world.disk.tree.fileAt (oldPlace ++ names) = some content) ∧
      (∀ names, world.disk.HasFile oldPlace.path names → names ∈ below) ∧
      (project.renameEach (below.map (moveAlong oldPlace newPlace))).run start =
        (.ok each, finished) ∧
      ((normalizeAll (Text.sortedSet (each.map (finalPath oldPlace newPlace below)))).run
        finished).1 = .ok normals ∧
      listed = Text.sort normals := by
  obtain ⟨file, first, finished, written, normals, disk, kept, run, normal, same⟩ :=
    rename_ok oldNormal newNormal run
  rw [tidy_path oldNamed, if_pos directory] at run
  obtain ⟨moves, start, each, moving, sameDisk, renamed, rfl⟩ := renameDirectory_lists run
  rw [← disk] at named ⊢
  have located (names : Location) :
      first.disk.locationBelow oldPlace.path names = oldPlace ++ names := by
    rw [Disk.locationBelow, destination_directoryStart oldNamed]
  obtain ⟨below, rfl, distinct, files, complete⟩ := directoryMoves_between
    (isNormalDirectory_path oldNamed) (fun names content file name inside =>
      named _ content (located names ▸ file) name (List.mem_append_right _ inside)) moving
  simp only [located] at files
  have along : below.map (moveBetween oldPlace.path newPlace.path) =
      below.map (moveAlong oldPlace newPlace) := by
    refine List.map_congr_left fun names member => ?_
    obtain ⟨nonempty, content, file⟩ := files names member
    have namesNamed : Location.Named names := fun name inside =>
      named _ content file name (List.mem_append_right _ inside)
    rw [moveBetween, moveAlong, pathBelow_directoryStart_path oldNamed namesNamed nonempty,
      pathBelow_directoryStart_path newNamed namesNamed nonempty]
  rw [along] at renamed normal
  refine ⟨below, start, finished, each, normals, sameDisk, kept, distinct, files, ?_, renamed,
    normal, same⟩
  intro names has
  obtain ⟨place, content, found⟩ := exists_find_of_isFile has.file
  refine complete names content has.named has.below ?_
  rw [pathBelow_directoryStart_path oldNamed has.named has.below,
    ← pathBelow_path oldNamed has.named has.below]
  exact Disk.read_of_find found

end Directories

/-- After a directory has been renamed, no file is at its old path below it and each is at the same
place below the new directory; no other file has come or gone. The files listed are, in order and
once each, those that have been moved, by their new paths, and the other source files below the
roots that referred to a module of one of them. Nothing may be at the new paths. No file below the
directory may refer to its own module, and none may get the module of another one. The invariant of
the moves is `Underway`. It says of the tree which files have been moved, of the declarations which
modules have been renamed, and of the list which paths are in it. -/
theorem rename_directory_accounts {project : Project} {world after : World}
    {old new oldPath newPath : Text} {roots listed : List Text}
    (ordinary : project.OrdinaryPaths world.disk old new)
    (rooted : (project.roots.list.run world).1 = .ok roots)
    (oldNormal : world.disk.normalize old = .ok oldPath)
    (newNormal : world.disk.normalize new = .ok newPath)
    (directory : world.disk.isDirectory oldPath = true)
    (absent : ∀ names, world.disk.HasFile oldPath names →
      world.disk.pathExists (Disk.pathBelow newPath names) = false)
    (foreign : ∀ names declaration newModule,
      project.ModuleBelow world oldPath newPath names declaration newModule →
      declaration.module ∉ declaration.dependencies)
    (dotted : ∀ names declaration newModule,
      project.ModuleBelow world oldPath newPath names declaration newModule →
      isDotted newModule = true)
    (apart : ∀ names declaration newModule other otherDeclaration otherModule,
      project.ModuleBelow world oldPath newPath names declaration newModule →
      project.ModuleBelow world oldPath newPath other otherDeclaration otherModule →
      other ≠ names → newModule ≠ otherDeclaration.module)
    (regular : ∀ root ∈ roots, ∀ path text, world.disk.FileBelow root path →
      isSource project.extensions path = true → world.disk.read path = .ok (.text text) →
      isRegular text = true)
    (run : (project.rename (some old) (some new)).run world = (.ok listed, after)) :
    (∀ names, world.disk.HasFile oldPath names →
      after.disk.isFile (Disk.pathBelow oldPath names) = false ∧
        after.disk.isFile (Disk.pathBelow newPath names) = true) ∧
    (∀ location, (∀ names, world.disk.HasFile oldPath names →
        location ≠ Path.destination (Disk.pathBelow oldPath names) ∧
          location ≠ Path.destination (Disk.pathBelow newPath names)) →
      (after.disk.tree.fileAt location).isSome = (world.disk.tree.fileAt location).isSome) ∧
    listed.Pairwise (fun first second => Text.le first second = true ∧ first ≠ second) ∧
    ∀ path, path ∈ listed ↔
      (∃ names, world.disk.HasFile oldPath names ∧ path = Disk.pathBelow newPath names) ∨
        (∀ names, world.disk.HasFile oldPath names → path ≠ Disk.pathBelow oldPath names) ∧
          (∃ root ∈ roots, world.disk.FileBelow root path) ∧
          isSource project.extensions path = true ∧
          ∃ declaration, world.disk.declarationAt path = some declaration ∧
            ∃ names moved newModule,
              project.ModuleBelow world oldPath newPath names moved newModule ∧
              moved.module ∈ declaration.dependencies := by
  have filesNamed := ordinary.filesNamed
  have cwdNamed := ordinary.cwd
  obtain ⟨locations, rootsNamed, fixed, rfl⟩ := ordinary.exists_listed rooted
  obtain ⟨oldPlace, oldNamed, rfl⟩ := ordinary.exists_location ordinary.old oldNormal
  obtain ⟨newPlace, newNamed, rfl⟩ := ordinary.exists_location ordinary.new newNormal
  obtain ⟨below, start, finished, each, normals, disk, kept, distinct, files, complete, renamed,
    normal, rfl⟩ := rename_directory filesNamed oldNamed newNamed oldNormal newNormal
      directory run
  have transfer : Transfer project world locations oldPlace newPlace below :=
    ⟨filesNamed, cwdNamed, rootsNamed, fixed, oldNamed, newNamed,
      fun _ _ => sound_of_regular filesNamed rootsNamed regular, distinct, files, absent, foreign,
      dotted, apart⟩
  obtain ⟨renames, underway⟩ := underway_renameEach transfer disk renamed
  have accounted := underway.accounted
  have has (names : Location) : world.disk.HasFile oldPlace.path names ↔ names ∈ below :=
    ⟨complete names, accounted.left names⟩
  obtain rfl := normalizeAll_paths (underway.listed_named transfer) normal
  rw [kept]
  refine ⟨fun names inside => ?_, fun location outside => ?_, ?_, fun path => ?_⟩
  · exact accounted.moved transfer (complete names inside)
  · refine accounted.others fun names member => ?_
    obtain ⟨-, oldNamed, newNamed, oldPath, newPath⟩ := transfer.paths member
    have apart := outside names ((has names).mpr member)
    rwa [oldPath, newPath, destination_path oldNamed, destination_path newNamed] at apart
  · refine (Text.pairwise_sort _).and ?_
    exact (Text.sort_perm _).nodup_iff.mpr (Text.nodup_sortedSet _)
  · rw [(Text.sort_perm _).mem_iff, Text.mem_sortedSet, underway.mem_listed transfer,
      underway.referring_iff transfer complete]
    refine or_congr_left (exists_congr fun names => ?_)
    rw [has]
    exact and_congr_right fun member => by rw [(transfer.paths member).newPath]

/-- The rename of the directory, by which all paths come out in normal form. -/
def outsiderListed : Except Failure (List Text) × World :=
  (oneRoot.rename (some "/r/a".toList) (some "r/b".toList)).run outsider

/-- The directory holds these three files and no others: every file of the tree is checked. -/
theorem outsider_files {names : Location} (has : outsider.disk.HasFile "/r/a".toList names) :
    names ∈ [["n.txt".toList], ["x.clj".toList], ["y.clj".toList]] := by
  obtain ⟨place, content, found⟩ := exists_find_of_isFile has.file
  have directory : Location.Named ["r".toList, "a".toList] := by decide
  have path : "/r/a".toList = Location.path ["r".toList, "a".toList] := by decide
  rw [path, pathBelow_path directory has.named has.below] at found
  have held := FileTree.mem_entries_of_file
    (FileTree.fileAt_eq_some_iff.mp (fileAt_of_find (directory.append has.named) found))
  have entries : ∀ entry ∈ outsider.disk.tree.entries,
      ["r".toList, "a".toList] <+: entry.1 → entry.1.drop 2 ≠ [] →
        entry.1.drop 2 ∈ [["n.txt".toList], ["x.clj".toList], ["y.clj".toList]] := by
    decide
  exact entries _ held (List.prefix_append _ _) has.below

/-- The directory holds these two modules and no others, with these dependencies and new names. -/
theorem outsider_modules {names : Location} {declaration : Declaration} {newModule : Text}
    (declares : oneRoot.ModuleBelow outsider "/r/a".toList "/r/b".toList names declaration
      newModule) :
    (names = ["x.clj".toList] ∧ declaration.module = "a.x".toList ∧
        declaration.dependencies = [] ∧ newModule = "b.x".toList) ∨
      (names = ["y.clj".toList] ∧ declaration.module = "a.y".toList ∧
        declaration.dependencies = ["a.x".toList] ∧ newModule = "b.y".toList) := by
  obtain ⟨has, source, declared, resolved⟩ := declares
  have member := outsider_files has
  simp only [List.mem_cons, List.not_mem_nil, or_false] at member
  obtain rfl | rfl | rfl := member
  · exact absurd source (by decide)
  · have known : outsider.disk.declarationAt (Disk.pathBelow "/r/a".toList ["x.clj".toList]) =
          some ⟨"a.x".toList, [], [], []⟩ ∧
        ((oneRoot.resolve (Disk.pathBelow "/r/b".toList ["x.clj".toList])).run outsider).1 =
          .ok "b.x".toList := by
      decide +kernel
    obtain rfl := Option.some.inj (known.1.symm.trans declared)
    exact .inl ⟨rfl, rfl, by decide, Except.ok.inj (resolved.symm.trans known.2)⟩
  · have known : outsider.disk.declarationAt (Disk.pathBelow "/r/a".toList ["y.clj".toList]) =
          some ⟨"a.y".toList, [], [], [.references "require".toList
            [.requirement (.plain "a.x".toList true)]]⟩ ∧
        ((oneRoot.resolve (Disk.pathBelow "/r/b".toList ["y.clj".toList])).run outsider).1 =
          .ok "b.y".toList := by
      decide +kernel
    obtain rfl := Option.some.inj (known.1.symm.trans declared)
    exact .inr ⟨rfl, rfl, by decide, Except.ok.inj (resolved.symm.trans known.2)⟩

/-- The three files of the directory are moved, and the file outside that refers to its modules is
listed with them. -/
theorem rename_directory_accounts_outsider :
    outsiderListed.1 = .ok ["/r/b/n.txt".toList, "/r/b/x.clj".toList, "/r/b/y.clj".toList,
        "/r/u.clj".toList] ∧
      outsiderListed.2.disk.isFile (Disk.pathBelow "/r/a".toList ["x.clj".toList]) = false ∧
      outsiderListed.2.disk.isFile (Disk.pathBelow "/r/b".toList ["x.clj".toList]) = true ∧
      ∃ declaration, outsider.disk.declarationAt "/r/u.clj".toList = some declaration ∧
        ∃ names moved newModule,
          oneRoot.ModuleBelow outsider "/r/a".toList "/r/b".toList names moved newModule ∧
          moved.module ∈ declaration.dependencies := by
  have ordinary : oneRoot.OrdinaryPaths outsider.disk "/r/a".toList "r/b".toList :=
    ⟨⟨⟨[], ["/r".toList], by decide, by decide, rfl⟩, by decide⟩, by decide, by decide, by decide⟩
  have listed : outsiderListed.1 = .ok ["/r/b/n.txt".toList, "/r/b/x.clj".toList,
      "/r/b/y.clj".toList, "/r/u.clj".toList] := by decide +kernel
  have run : outsiderListed = (.ok ["/r/b/n.txt".toList, "/r/b/x.clj".toList,
      "/r/b/y.clj".toList, "/r/u.clj".toList], outsiderListed.2) := by
    rw [← listed]
  have absent : ∀ names ∈ [["n.txt".toList], ["x.clj".toList], ["y.clj".toList]],
      outsider.disk.pathExists (Disk.pathBelow "/r/b".toList names) = false := by
    decide +kernel
  have regular : ∀ entry ∈ outsider.disk.tree.entries, ∀ text,
      entry.2 = .file (.text text) → isRegular text = true := by
    simp only [outsider, List.forall_mem_cons, reduceCtorEq, Node.file.injEq, Content.text.injEq,
      forall_eq', false_implies, implies_true, true_and, List.not_mem_nil]
    decide +kernel
  have rooted : (oneRoot.roots.list.run outsider).1 = .ok ["/r".toList] := by decide +kernel
  have oldNormal : outsider.disk.normalize "/r/a".toList = .ok "/r/a".toList := by decide +kernel
  have newNormal : outsider.disk.normalize "r/b".toList = .ok "/r/b".toList := by decide +kernel
  have directory : outsider.disk.isDirectory "/r/a".toList = true := by decide +kernel
  have free (names : Location) (has : outsider.disk.HasFile "/r/a".toList names) :=
    absent names (outsider_files has)
  have foreign (names : Location) (declaration : Declaration) (newModule : Text)
      (declares : oneRoot.ModuleBelow outsider "/r/a".toList "/r/b".toList names declaration
        newModule) : declaration.module ∉ declaration.dependencies := by
    obtain ⟨-, module, dependencies, -⟩ | ⟨-, module, dependencies, -⟩ := outsider_modules declares
    all_goals
      rw [module, dependencies]
      decide
  have dotted (names : Location) (declaration : Declaration) (newModule : Text)
      (declares : oneRoot.ModuleBelow outsider "/r/a".toList "/r/b".toList names declaration
        newModule) : isDotted newModule = true := by
    obtain ⟨-, -, -, rfl⟩ | ⟨-, -, -, rfl⟩ := outsider_modules declares
    all_goals decide
  have apart (names : Location) (declaration : Declaration) (newModule : Text) (other : Location)
      (otherDeclaration : Declaration) (otherModule : Text)
      (declares : oneRoot.ModuleBelow outsider "/r/a".toList "/r/b".toList names declaration
        newModule)
      (otherDeclares : oneRoot.ModuleBelow outsider "/r/a".toList "/r/b".toList other
        otherDeclaration otherModule) (_ : other ≠ names) :
      newModule ≠ otherDeclaration.module := by
    obtain ⟨-, -, -, rfl⟩ | ⟨-, -, -, rfl⟩ := outsider_modules declares
    all_goals
      obtain ⟨-, module, -⟩ | ⟨-, module, -⟩ := outsider_modules otherDeclares
      all_goals
        rw [module]
        decide
  have regularBelow : ∀ root ∈ ["/r".toList], ∀ path text, outsider.disk.FileBelow root path →
      isSource oneRoot.extensions path = true → outsider.disk.read path = .ok (.text text) →
      isRegular text = true := by
    intro root member path text below source read
    obtain ⟨location, held⟩ := mem_entries_of_read ordinary.filesNamed below read
    exact regular _ held text rfl
  obtain ⟨moved, -, -, members⟩ := rename_directory_accounts ordinary rooted oldNormal newNormal
    directory free foreign dotted apart regularBelow run
  obtain ⟨left, arrived⟩ := moved ["x.clj".toList] ⟨by decide, by decide, by decide +kernel⟩
  refine ⟨listed, left, arrived, ?_⟩
  obtain ⟨names, has, same⟩ | ⟨-, -, -, referring⟩ := (members "/r/u.clj".toList).mp (by decide)
  · have elsewhere : ∀ names ∈ [["n.txt".toList], ["x.clj".toList], ["y.clj".toList]],
        "/r/u.clj".toList ≠ Disk.pathBelow "/r/b".toList names := by
      decide
    exact absurd same (elsewhere names (outsider_files has))
  · exact referring

end Project

end Relocate
