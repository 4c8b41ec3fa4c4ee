import Relocate.Proofs.Rename.Substitution

/-!
# Moving the files below a directory one after another

A file below a renamed directory may be written several times before it is moved and again
afterwards, because it refers to modules of other files below the directory. What is known after
some of the files have been moved is `Underway`; `Underway.step` moves one more of them, and
`underway_renameEach` all.

What one rename does to the set of files is `Stepped.file_iff`. After some renames the files are
those that have arrived below the new directory, and those there were at first less the ones that
have left (`Accounted`). The modules renamed so far and the files listed so far are known by what
was on the disk at first (`Reassigned`, `Recorded`).
-/
namespace Relocate

/-- The names lead from a directory to a file below it. -/
structure Disk.HasFile (disk : Disk) (directory : Text) (names : Location) : Prop where
  named : names.Named
  below : names ≠ []
  file : disk.isFile (Disk.pathBelow directory names) = true

section Substitution

variable {renames : List (Text × Text)} {module target : Text}

/-- What becomes a module that no other becomes has been the module before. -/
theorem eq_of_substituted (apart : ∀ rename ∈ renames, rename.2 ≠ module)
    (same : substituted renames target = module) : target = module := by
  rw [substituted] at same
  cases found : renames.find? fun rename => rename.1 = target with
  | none => simpa [found] using same
  | some rename =>
    rw [found] at same
    exact absurd same (apart rename (List.mem_of_find?_eq_some found))

/-- A module that is not renamed stays. -/
theorem substituted_of_ne (kept : ∀ rename ∈ renames, rename.1 ≠ module) :
    substituted renames module = module := by
  have missing : renames.find? (fun rename => rename.1 = module) = none :=
    List.find?_eq_none.mpr fun rename member => by simpa using kept rename member
  rw [substituted, missing]
  rfl

end Substitution

namespace Project

open Action

section Steps

variable {project : Project} {start current : World} {roots : List Location}
  {old location : Location} {new : Text} {content : Content} {done renames : List (Text × Text)}
  {rename : Option (Text × Text)} {target : Location} {module : Text}

/-- A file that has not been moved refers only to modules that it referred to at first, but for
those that others have become. -/
theorem Followed.refersAt_before
    (followed : Followed project.extensions roots start.disk current.disk done renames)
    (named : start.disk.FilesNamed) (rootsNamed : ∀ root ∈ roots, Location.Named root)
    (file : start.disk.tree.fileAt location = some content)
    (pending : location.path ∉ done.map Prod.fst) (apart : ∀ rename ∈ renames, rename.2 ≠ module)
    (refers : current.disk.RefersAt project.extensions roots location module) :
    start.disk.RefersAt project.extensions roots location module := by
  by_cases declares :
      ∃ declaration, start.disk.DeclaresAt project.extensions roots location declaration
  · obtain ⟨earlier, declares⟩ := declares
    obtain ⟨later, declaresNow, -, -, dependencies⟩ :=
      followed.declares location earlier declares pending
    obtain ⟨declaration, declaresToo, member⟩ := refers
    obtain rfl := Option.some.inj (declaresNow.declared.symm.trans declaresToo.declared)
    rw [dependencies, Text.mem_sortedSet] at member
    obtain ⟨target, inside, same⟩ := List.mem_map.mp member
    exact ⟨earlier, declares, eq_of_substituted apart same ▸ inside⟩
  · have same := followed.kept location content file pending fun declaration declared =>
      declares ⟨declaration, declared⟩
    exact absurd (declares_of_refersAt named rootsNamed file same refers)
      declares

/-- A file that has not been moved still refers to a module that has not been renamed. -/
theorem Followed.refersAt_still
    (followed : Followed project.extensions roots start.disk current.disk done renames)
    (pending : location.path ∉ done.map Prod.fst)
    (kept : ∀ rename ∈ renames, rename.1 ≠ module)
    (refers : start.disk.RefersAt project.extensions roots location module) :
    current.disk.RefersAt project.extensions roots location module := by
  obtain ⟨earlier, declares, member⟩ := refers
  obtain ⟨later, declaresNow, -, -, dependencies⟩ :=
    followed.declares location earlier declares pending
  refine ⟨later, declaresNow, ?_⟩
  simpa [dependencies] using List.mem_map.mpr ⟨module, member, substituted_of_ne kept⟩

/-- Where its path starts from the top, a module is found whatever is on the disk. -/
theorem resolve_of_absolute {fixedRoots : List Text} {path : Text}
    (fixed : project.roots = .fixed fixedRoots) (absolute : Path.isAbsolute path = true)
    (resolved : ((project.resolve path).run current).1 = .ok module) :
    ((project.resolve path).run start).1 = .ok module := by
  have run (world : World) : ((project.resolve path).run world).1 =
      ((ofExcept .resolution (resolveModule ['/'] fixedRoots path)).run world).1 := by
    rw [resolve, fixed]
    simp only [startOf, Disk.startOf, absolute, if_true]
    rfl
  rw [run] at resolved ⊢
  rw [run_ofExcept_ok resolved]
  rfl

/-- After a file has been renamed that does not refer to its own module, there are the files from
before without it, and a file at its new place. -/
theorem Stepped.file_iff {before after : Disk} {extensions : List Text}
    (stepped : Stepped extensions roots before after old new rename content target)
    (foreign : ∀ module newModule, rename = some (module, newModule) →
      ¬before.RefersAt extensions roots old module) :
    (∃ held, after.tree.fileAt location = some held) ↔
      location = target ∨ (location ≠ old ∧ ∃ held, before.tree.fileAt location = some held) := by
  by_cases refers : ∃ module newModule, rename = some (module, newModule) ∧
      before.RefersAt extensions roots location module
  · obtain ⟨module, newModule, same, refers⟩ := refers
    obtain ⟨earlier, later, held, -, written⟩ :=
      stepped.updated module newModule same location refers
    refine ⟨fun _ => .inr ⟨?_, _, held⟩, fun _ => ⟨_, written⟩⟩
    rintro rfl
    exact foreign module newModule same refers
  · have kept := stepped.kept location fun module newModule same refersHere =>
      refers ⟨module, newModule, same, refersHere⟩
    rw [kept]
    by_cases here : location = target
    · simp [here]
    · by_cases gone : location = old
      · simp [gone]
      · simp [here, gone]

end Steps

/-- The source file at these names below a directory declares a module, and is to have another one
at the same place below the new directory. -/
structure ModuleBelow (project : Project) (world : World) (old new : Text) (names : Location)
    (declaration : Declaration) (newModule : Text) : Prop where
  file : world.disk.HasFile old names
  source : isSource project.extensions (Disk.pathBelow old names) = true
  declared : world.disk.declarationAt (Disk.pathBelow old names) = some declaration
  resolved : ((project.resolve (Disk.pathBelow new names)).run world).1 = .ok newModule

/-- The move of a file below one location to the same place below another one. -/
def moveAlong (old new names : Location) : Text × Text :=
  (Location.path (old ++ names), Location.path (new ++ names))

/-- The two paths of a file that is moved are those of its two locations. -/
structure PathsAlong (old new names : Location) : Prop where
  named : names.Named
  oldNamed : (old ++ names).Named
  newNamed : (new ++ names).Named
  oldPath : Disk.pathBelow old.path names = Location.path (old ++ names)
  newPath : Disk.pathBelow new.path names = Location.path (new ++ names)

/-- The files below one location can go below another one: nothing is at their new paths, and their
modules can be renamed at once. -/
structure Transfer (project : Project) (world : World) (roots : List Location)
    (old new : Location) (below : List Location) : Prop where
  named : world.disk.FilesNamed
  cwdNamed : world.disk.cwd.location.Named
  rootsNamed : ∀ root ∈ roots, Location.Named root
  fixed : project.roots = .fixed (roots.map Location.path)
  oldNamed : old.Named
  newNamed : new.Named
  sound : ∀ location declaration,
    world.disk.DeclaresAt project.extensions roots location declaration → declaration.Sound
  distinct : below.Nodup
  files : ∀ names ∈ below, names ≠ [] ∧
    ∃ content, world.disk.tree.fileAt (old ++ names) = some content
  absent : ∀ names, world.disk.HasFile old.path names →
    world.disk.pathExists (Disk.pathBelow new.path names) = false
  foreign : ∀ names declaration newModule,
    project.ModuleBelow world old.path new.path names declaration newModule →
      declaration.module ∉ declaration.dependencies
  dotted : ∀ names declaration newModule,
    project.ModuleBelow world old.path new.path names declaration newModule →
      isDotted newModule = true
  apart : ∀ names declaration newModule other otherDeclaration otherModule,
    project.ModuleBelow world old.path new.path names declaration newModule →
      project.ModuleBelow world old.path new.path other otherDeclaration otherModule →
      other ≠ names → newModule ≠ otherDeclaration.module

/-- Which files there are after some of them have been moved from below one location to below
another one, and which directories there can be. -/
structure Accounted (start current : Disk) (old new : Location) (done : List Location) : Prop where
  files : ∀ location, (∃ content, current.tree.fileAt location = some content) ↔
    (∃ names ∈ done, location = new ++ names) ∨
      (∀ names ∈ done, location ≠ old ++ names) ∧
        ∃ content, start.tree.fileAt location = some content
  directories : ∀ location, current.tree.get? location = some .directory →
    start.tree.get? location = some .directory ∨
      ∃ names ∈ done, location <+: new ++ names.dropLast
  left : ∀ names ∈ done, start.HasFile old.path names
  arrived : ∀ names ∈ done, start.tree.get? (new ++ names) = none ∧
    ∃ (other : Disk) (place : Place), other.locate (Location.path (new ++ names)) = .ok place

/-- What the modules of the moved files have become. -/
def Reassigned (project : Project) (world : World) (old new : Location) (done : List Location)
    (renames : List (Text × Text)) : Prop :=
  ∀ pair, pair ∈ renames ↔ ∃ names ∈ done, ∃ declaration,
    project.ModuleBelow world old.path new.path names declaration pair.2 ∧
      declaration.module = pair.1

/-- Which files have been listed while some of them have been moved: all that have been moved, and
of those that are not to be moved the ones that referred to a renamed module at first. -/
structure Recorded (extensions : List Text) (roots : List Location) (start : Disk)
    (old new : Location) (below done : List Location) (renames : List (Text × Text))
    (written : List Text) : Prop where
  moved : ∀ names ∈ done, Location.path (new ++ names) ∈ written
  known : ∀ path ∈ written, ∃ location, path = Location.path location ∧
    ((∃ names ∈ done, location = new ++ names) ∨
      ∃ content, start.tree.fileAt location = some content)
  referring : ∀ location content, start.tree.fileAt location = some content →
    (∀ names ∈ below, location ≠ old ++ names) →
    (location.path ∈ written ↔
      ∃ rename ∈ renames, start.RefersAt extensions roots location rename.1)

/-- What is known after some of the files have been moved. -/
structure Underway (project : Project) (start : World) (roots : List Location)
    (old new : Location) (below done : List Location) (renames : List (Text × Text))
    (written : List Text) (current : Disk) : Prop where
  followed : Followed project.extensions roots start.disk current
    (done.map (moveAlong old new)) renames
  accounted : Accounted start.disk current old new done
  reassigned : Reassigned project start old new done renames
  recorded : Recorded project.extensions roots start.disk old new below done renames written

section Transfers

variable {project : Project} {start current after : World} {roots : List Location}
  {old new names : Location} {below done later : List Location}
  {renames : List (Text × Text)} {content : Content} {rename : Option (Text × Text)}
  {target : Location} {before written : List Text}

/-- The two paths of a moved file are those of the same names below the two directories. -/
theorem Transfer.paths (transfer : Transfer project start roots old new below)
    (member : names ∈ below) : PathsAlong old new names := by
  obtain ⟨nonempty, content, file⟩ := transfer.files names member
  have whole := transfer.named _ _ file
  have namesNamed : names.Named := fun name inside => whole name (List.mem_append_right _ inside)
  exact ⟨namesNamed, whole, transfer.newNamed.append namesNamed,
    pathBelow_path transfer.oldNamed namesNamed nonempty,
    pathBelow_path transfer.newNamed namesNamed nonempty⟩

/-- A file that is to be moved, and has not been, is none of those that have been. -/
theorem Transfer.pending (transfer : Transfer project start roots old new below)
    (sub : done ⊆ below) {location : Location} (named : location.Named)
    (outside : ∀ names ∈ done, location ≠ old ++ names) :
    location.path ∉ (done.map (moveAlong old new)).map Prod.fst := by
  intro inside
  rw [List.map_map] at inside
  obtain ⟨other, finished, same⟩ := List.mem_map.mp inside
  exact outside other finished (path_inj (transfer.paths (sub finished)).oldNamed named same).symm

/-- A file goes to its new place, at which there was nothing. Nothing was at the new place at first,
and the directories that have come since lie above other new places. -/
theorem Transfer.target_eq (transfer : Transfer project start roots old new below)
    (accounted : Accounted start.disk current.disk old new done) (sub : done ⊆ below)
    (member : names ∈ below) (here : start.disk.HasFile old.path names)
    (landed : Landed current.disk (Location.path (old ++ names)) (Location.path (new ++ names))
      target) :
    target = new ++ names ∧ start.disk.tree.get? (new ++ names) = none ∧
      ∃ (other : Disk) (place : Place),
        other.locate (Location.path (new ++ names)) = .ok place := by
  obtain ⟨-, -, newNamed, -, newPath⟩ := transfer.paths member
  have direct := isDirect_path newNamed (List.append_ne_nil_of_right_ne_nil _ here.below)
  have free {other : Disk} {place : Place}
      (located : other.locate (Location.path (new ++ names)) = .ok place) :
      start.disk.tree.get? (new ++ names) = none := by
    rw [← destination_path newNamed]
    exact free_of_not_exists direct located
      (newPath ▸ transfer.absent names here)
  have leads {other : Disk} {location : Location}
      (located : other.locate (Location.path (new ++ names)) = .ok (.ofLocation location)) :
      location = new ++ names := by
    have same := Disk.locate_absolute (isAbsolute_path _) located
    rw [destination_path newNamed] at same
    exact congrArg Place.location same
  obtain ⟨same, other, place, -, located⟩ := landed.target_eq (isForward_of_isDirect direct)
    fun other location _ located => ⟨leads located, not_directory_of_files accounted.directories
      (fun other inside => transfer.files other (List.cons_subset.mpr ⟨member, sub⟩ inside))
      (by rw [free located]; simp)⟩
  exact ⟨same, free located, other, place, located⟩

/-- A file that has arrived is not where one was at first. -/
theorem Accounted.arrived_ne (accounted : Accounted start.disk current.disk old new done)
    {location : Location} (file : start.disk.tree.fileAt location = some content) :
    ∀ names ∈ done, location ≠ new ++ names := by
  rintro names member rfl
  rw [FileTree.fileAt_eq_some_iff, (accounted.arrived names member).1] at file
  simp at file

/-- What one more rename does to the set of files. The step takes the file from its old location to
its new one; directories come only above the new one. -/
theorem Accounted.step (transfer : Transfer project start roots old new below)
    (accounted : Accounted start.disk current.disk old new done) (member : names ∈ below)
    (stepped : Stepped project.extensions roots current.disk after.disk (old ++ names)
      (Location.path (new ++ names)) rename content (new ++ names))
    (foreign : ∀ module newModule, rename = some (module, newModule) →
      ¬current.disk.RefersAt project.extensions roots (old ++ names) module)
    (here : start.disk.HasFile old.path names)
    (arrived : start.disk.tree.get? (new ++ names) = none ∧
      ∃ (other : Disk) (place : Place),
        other.locate (Location.path (new ++ names)) = .ok place) :
    Accounted start.disk after.disk old new (done ++ [names]) := by
  obtain ⟨nonempty, held, file⟩ := transfer.files names member
  obtain ⟨-, -, newNamed, -⟩ := transfer.paths member
  have notOld := accounted.arrived_ne file
  refine ⟨fun location => ?_, fun location directory => ?_, ?_, ?_⟩
  · rw [stepped.file_iff foreign, accounted.files]
    simp only [List.mem_append, List.mem_singleton]
    constructor
    · rintro (rfl | ⟨notHere, ⟨other, earlier, rfl⟩ | ⟨notLeft, there⟩⟩)
      · exact .inl ⟨names, .inr rfl, rfl⟩
      · exact .inl ⟨other, .inl earlier, rfl⟩
      · refine .inr ⟨?_, there⟩
        rintro other (earlier | rfl)
        · exact notLeft other earlier
        · exact notHere
    · rintro (⟨other, earlier | rfl, rfl⟩ | ⟨notLeft, there⟩)
      · exact .inr ⟨(notOld other earlier).symm, .inl ⟨other, earlier, rfl⟩⟩
      · exact .inl rfl
      · exact .inr ⟨notLeft names (.inr rfl), .inr ⟨fun other earlier =>
          notLeft other (.inl earlier), there⟩⟩
  · obtain already | above := Disk.directory_of_makeParents (isForward_of_isDirect
      (isDirect_path newNamed (List.append_ne_nil_of_right_ne_nil _ nonempty)))
      (stepped.confined.directories location directory)
    · obtain first | ⟨earlier, inside, above⟩ := accounted.directories location already
      · exact .inl first
      · exact .inr ⟨earlier, List.mem_append_left _ inside, above⟩
    · rw [newNamed.destination, List.dropLast_append_of_ne_nil nonempty] at above
      exact .inr ⟨names, by simp, above⟩
  · rw [List.forall_mem_append, List.forall_mem_singleton]
    exact ⟨accounted.left, here⟩
  · rw [List.forall_mem_append, List.forall_mem_singleton]
    exact ⟨accounted.arrived, arrived⟩

/-- What one more rename adds to the modules that have been renamed. -/
theorem Reassigned.step (reassigned : Reassigned project start old new done renames)
    (renamed : ∀ pair, pair ∈ rename ↔ ∃ declaration,
      project.ModuleBelow start old.path new.path names declaration pair.2 ∧
        declaration.module = pair.1) :
    Reassigned project start old new (done ++ [names]) (renames ++ rename.toList) := by
  intro pair
  rw [List.mem_append, Option.mem_toList, ← Option.mem_def, reassigned pair, renamed]
  simp only [List.mem_append, List.mem_singleton]
  constructor
  · rintro (⟨other, earlier, found⟩ | found)
    · exact ⟨other, .inl earlier, found⟩
    · exact ⟨names, .inr rfl, found⟩
  · rintro ⟨other, earlier | rfl, found⟩
    · exact .inl ⟨other, earlier, found⟩
    · exact .inr found

/-- What one more rename adds to the files that have been listed. A file outside is written in this
step if it refers to the module now. It then did so at first, unless a module has been given this
name since, which is excluded. -/
theorem Recorded.step (transfer : Transfer project start roots old new below)
    (recorded : Recorded project.extensions roots start.disk old new below done renames before)
    (accounted : Accounted start.disk current.disk old new done)
    (followed : Followed project.extensions roots start.disk current.disk
      (done.map (moveAlong old new)) renames)
    (sub : done ⊆ below) (member : names ∈ below)
    (free : start.disk.tree.get? (new ++ names) = none)
    (apart : ∀ earlier ∈ renames, ∀ pair ∈ rename, earlier.2 ≠ pair.1)
    (lists : ∀ path, path ∈ written ↔ path = Location.path (new ++ names) ∨
      ∃ location module newModule, path = Location.path location ∧
        rename = some (module, newModule) ∧
        current.disk.RefersAt project.extensions roots location module) :
    Recorded project.extensions roots start.disk old new below (done ++ [names])
      (renames ++ rename.toList) (before ++ written) := by
  refine ⟨?_, ?_, fun location content file outside => ?_⟩
  · rw [List.forall_mem_append, List.forall_mem_singleton]
    exact ⟨fun other earlier => List.mem_append_left _ (recorded.moved other earlier),
      List.mem_append_right _ ((lists _).mpr (.inl rfl))⟩
  · rw [List.forall_mem_append]
    refine ⟨fun path earlier => ?_, fun path last => ?_⟩
    · obtain ⟨location, same, ⟨other, finished, arrived⟩ | file⟩ := recorded.known path earlier
      · exact ⟨location, same, .inl ⟨other, List.mem_append_left _ finished, arrived⟩⟩
      · exact ⟨location, same, .inr file⟩
    · obtain rfl | ⟨location, module, newModule, rfl, -, declaration, declares, -⟩ :=
        (lists path).mp last
      · exact ⟨new ++ names, rfl, .inl ⟨names, by simp, rfl⟩⟩
      · obtain ⟨other, finished, arrived⟩ | ⟨-, file⟩ :=
          (accounted.files location).mp declares.source.file
        · exact ⟨location, rfl, .inl ⟨other, List.mem_append_left _ finished, arrived⟩⟩
        · exact ⟨location, rfl, .inr file⟩
  · have locationNamed := transfer.named location content file
    have pending := transfer.pending sub locationNamed fun other finished =>
      outside other (sub finished)
    have listed : location.path ∈ written ↔ ∃ pair ∈ rename,
        current.disk.RefersAt project.extensions roots location pair.1 := by
      rw [lists]
      constructor
      · rintro (same | ⟨other, module, newModule, same, rfl, refers⟩)
        · rw [path_inj locationNamed (transfer.paths member).newNamed same,
            FileTree.fileAt_eq_some_iff, free] at file
          simp at file
        · rw [path_inj locationNamed (refers.named followed.named) same]
          exact ⟨_, rfl, refers⟩
      · rintro ⟨⟨module, newModule⟩, rfl, refers⟩
        exact .inr ⟨location, module, newModule, rfl, rfl, refers⟩
    rw [List.mem_append, recorded.referring location content file outside, listed]
    constructor
    · rintro (⟨pair, inside, refers⟩ | ⟨pair, inside, refers⟩)
      · exact ⟨pair, List.mem_append_left _ inside, refers⟩
      · refine ⟨pair, List.mem_append_right _ (Option.mem_toList.mpr inside), ?_⟩
        exact followed.refersAt_before transfer.named transfer.rootsNamed file
          pending (fun earlier listed => apart earlier listed pair inside) refers
    · rintro ⟨pair, inside, refers⟩
      obtain earlier | last := List.mem_append.mp inside
      · exact .inl ⟨pair, earlier, refers⟩
      · -- The file was listed when a module of this name was first renamed.
        by_cases renamed : ∃ earlier ∈ renames, earlier.1 = pair.1
        · obtain ⟨earlier, listed, same⟩ := renamed
          exact .inl ⟨earlier, listed, same ▸ refers⟩
        · refine .inr ⟨pair, Option.mem_toList.mp last, followed.refersAt_still pending ?_ refers⟩
          exact fun earlier listed same => renamed ⟨earlier, listed, same⟩

/-- The module of a file that is moved is renamed as it was declared at first. The file has not been
moved yet, so that it declares the module that it declared at first. -/
theorem Transfer.moduleBelow_iff (transfer : Transfer project start roots old new below)
    (followed : Followed project.extensions roots start.disk current.disk
      (done.map (moveAlong old new)) renames)
    (member : names ∈ below) (here : start.disk.HasFile old.path names)
    (pending : Location.path (old ++ names) ∉ (done.map (moveAlong old new)).map Prod.fst)
    (asked : ((project.moduleRename (Location.path (old ++ names))
      (Location.path (new ++ names))).run current).1 = .ok rename) {pair : Text × Text} :
    pair ∈ rename ↔ ∃ declaration,
      project.ModuleBelow start old.path new.path names declaration pair.2 ∧
        declaration.module = pair.1 := by
  obtain ⟨-, content, file⟩ := transfer.files names member
  obtain ⟨-, -, -, oldPath, newPath⟩ := transfer.paths member
  obtain ⟨declared, resolved⟩ := moduleRename_ok_iff.mp asked
  have modules := declaredModule_ok declared
  rw [followed.module transfer.named file pending, ← oldPath] at modules
  rw [← newPath] at resolved
  have absolute : Path.isAbsolute (Disk.pathBelow new.path names) = true :=
    newPath ▸ isAbsolute_path _
  obtain ⟨module, newModule⟩ := pair
  constructor
  · rintro rfl
    split at modules
    · rename_i source
      obtain ⟨declaration, found, same⟩ := Option.map_eq_some_iff.mp modules.symm
      exact ⟨declaration, ⟨here, source, found,
        resolve_of_absolute transfer.fixed absolute (resolved module newModule rfl)⟩, same⟩
    · simp at modules
  · rintro ⟨declaration, ⟨-, source, found, here⟩, rfl⟩
    rw [if_pos source, found] at modules
    obtain ⟨⟨_, other⟩, rfl, rfl⟩ := Option.map_eq_some_iff.mp modules
    have again : ((project.resolve (Disk.pathBelow new.path names)).run current).1 =
        .ok newModule := resolve_of_absolute transfer.fixed absolute here
    obtain rfl := Except.ok.inj (again.symm.trans (resolved _ other rfl))
    rfl

/-- No module has been given the name of one that is renamed later. -/
theorem Transfer.apart_of_fresh (transfer : Transfer project start roots old new below)
    (reassigned : Reassigned project start old new done renames) (fresh : names ∉ done)
    (renamed : ∀ pair, pair ∈ rename ↔ ∃ declaration,
      project.ModuleBelow start old.path new.path names declaration pair.2 ∧
        declaration.module = pair.1) :
    ∀ earlier ∈ renames, ∀ pair ∈ rename, earlier.2 ≠ pair.1 := by
  intro earlier listed pair inside
  obtain ⟨other, finished, declaration, declares, -⟩ := (reassigned earlier).mp listed
  obtain ⟨last, declaresLast, same⟩ := (renamed pair).mp inside
  rw [← same]
  refine transfer.apart other declaration earlier.2 names last pair.2 declares declaresLast ?_
  rintro rfl
  exact fresh finished

/-- A file that is about to be moved does not refer to the module that it declares. It did not at
first, and no earlier rename has made it refer to this name. -/
theorem Transfer.not_refersAt_own (transfer : Transfer project start roots old new below)
    (followed : Followed project.extensions roots start.disk current.disk
      (done.map (moveAlong old new)) renames)
    (member : names ∈ below)
    (pending : Location.path (old ++ names) ∉ (done.map (moveAlong old new)).map Prod.fst)
    (apart : ∀ earlier ∈ renames, ∀ pair ∈ rename, earlier.2 ≠ pair.1)
    (renamed : ∀ pair, pair ∈ rename ↔ ∃ declaration,
      project.ModuleBelow start old.path new.path names declaration pair.2 ∧
        declaration.module = pair.1) :
    ∀ module newModule, rename = some (module, newModule) →
      ¬current.disk.RefersAt project.extensions roots (old ++ names) module := by
  intro module newModule same refers
  obtain ⟨-, content, file⟩ := transfer.files names member
  obtain ⟨other, declaresAt, depends⟩ := followed.refersAt_before
    transfer.named transfer.rootsNamed file pending
    (fun earlier listed => apart earlier listed (module, newModule) same) refers
  obtain ⟨declaration, declares, own⟩ := (renamed _).mp same
  obtain rfl := Option.some.inj
    (declaresAt.declared.symm.trans ((transfer.paths member).oldPath ▸ declares.declared))
  exact transfer.foreign names other newModule declares (own ▸ depends)

/-- What is known after one more file has been moved. The rename of one file is a step of each of
the four parts. -/
theorem Underway.step (transfer : Transfer project start roots old new below)
    (underway : Underway project start roots old new below done renames before current.disk)
    (split : below = done ++ names :: later)
    (run : (project.renameFile (moveAlong old new names).1 (moveAlong old new names).2).run
      current = (.ok written, after)) :
    ∃ more, Underway project start roots old new below (done ++ [names]) (renames ++ more)
      (before ++ written) after.disk := by
  obtain ⟨followed, accounted, reassigned, recorded⟩ := underway
  have member : names ∈ below := by simp [split]
  have sub : done ⊆ below := by simp [split]
  have fresh : names ∉ done := by
    have distinct := transfer.distinct
    rw [split, List.nodup_append] at distinct
    exact fun inside => distinct.2.2 names inside names (by simp) rfl
  obtain ⟨nonempty, content, file⟩ := transfer.files names member
  obtain ⟨namesNamed, oldNamed, newNamed, oldPath, newPath⟩ := transfer.paths member
  have pending := transfer.pending sub oldNamed fun other finished same =>
    fresh (List.append_cancel_left same ▸ finished)
  obtain ⟨held, fileNow⟩ := followed.file file pending
  have found := find_of_renameFile
    (isDirect_path oldNamed (List.append_ne_nil_of_right_ne_nil _ nonempty))
    ((destination_path oldNamed).symm ▸ fileNow) run
  have here : start.disk.HasFile old.path names := by
    refine ⟨namesNamed, nonempty, ?_⟩
    have there := find_path oldNamed (Disk.locate_of_find found)
      (FileTree.fileAt_eq_some_iff.mp file)
    simp [Disk.isFile, oldPath, there]
  obtain ⟨dropped, above, -⟩ := followed.cwd
  have cwdNamed : current.disk.cwd.location.Named := fun name inside =>
    transfer.cwdNamed name (above ▸ List.mem_append_left _ inside)
  obtain ⟨rename, target, asked, stepped⟩ := stepped_renameFile followed.named
    cwdNamed transfer.rootsNamed transfer.fixed fileNow (not_mem_path newNamed) run
  obtain ⟨rfl, arrived⟩ := transfer.target_eq accounted sub member here stepped.landed
  have renamed (pair : Text × Text) : pair ∈ rename ↔ ∃ declaration,
      project.ModuleBelow start old.path new.path names declaration pair.2 ∧
        declaration.module = pair.1 :=
    transfer.moduleBelow_iff followed member here pending asked
  have apart := transfer.apart_of_fresh reassigned fresh renamed
  have foreign := transfer.not_refersAt_own followed member pending apart renamed
  have lists (path : Text) : path ∈ written ↔ path = Location.path (new ++ names) ∨
      ∃ location module newModule, path = Location.path location ∧
        rename = some (module, newModule) ∧
        current.disk.RefersAt project.extensions roots location module := by
    obtain ⟨-, dependents, -, -, depending, -⟩ := carried_renameFile found run
    rw [mem_written_renameFile depending run, mem_dependentFiles_iff
      followed.named transfer.rootsNamed transfer.fixed asked depending]
    rfl
  refine ⟨rename.toList, ?_, accounted.step transfer member stepped foreign here arrived,
    reassigned.step renamed, recorded.step transfer accounted followed sub member
      arrived.1 apart lists⟩
  rw [List.map_append]
  refine followed.step transfer.named transfer.rootsNamed
    (newPath ▸ transfer.absent names here) (fun up => ?_) (fun pair inside => ?_)
    (fun earlier listed pair inside _ => apart earlier listed pair (Option.mem_toList.mp inside))
    stepped
  · rw [steps_path newNamed] at up
    exact absurd rfl (newNamed.plain _ up).2
  · obtain ⟨declaration, declares, -⟩ := (renamed pair).mp inside
    exact transfer.dotted names declaration pair.2 declares

/-- What is known after all files have been moved. -/
theorem underway_renameEach {first : World} (transfer : Transfer project start roots old new below)
    (disk : first.disk = start.disk)
    (run : (project.renameEach (below.map (moveAlong old new))).run first =
      (.ok written, after)) :
    ∃ renames, Underway project start roots old new below below renames written after.disk := by
  refine renameEach_collects (moveAlong old new)
    (fun done written disk => ∃ renames,
      Underway project start roots old new below done renames written disk) ?_ ?_ run
  · rw [disk]
    refine ⟨[], followed_start transfer.named transfer.sound, ?_, ?_, ?_⟩
    · exact ⟨by simp, fun _ directory => .inl directory, by simp, by simp⟩
    · exact fun pair => by simp
    · exact ⟨by simp, by simp, by simp⟩
  · rintro done names later current next before written split ⟨renames, underway⟩ run
    obtain ⟨more, again⟩ := underway.step transfer split run
    exact ⟨renames ++ more, again⟩

end Transfers

end Project

end Relocate
