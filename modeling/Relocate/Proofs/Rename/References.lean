import Relocate.Proofs.Rename.Consistency
import Relocate.Proofs.Rename.Steps

/-!
# One rename among several, by what the files refer to

Where no path in play holds a backslash or starts with two slashes, the files that are written with
a renamed one are those at whose locations its module is referred to: `stepped_renameFile`.
-/
namespace Relocate

/-- At the location is a source file below the roots with a usable declaration. -/
structure Disk.DeclaresAt (disk : Disk) (extensions : List Text) (roots : List Location)
    (location : Location) (declaration : Declaration) : Prop where
  source : disk.SourceAt extensions roots location
  declared : disk.declarationAt location.path = some declaration

/-- At the location is a source file below the roots that refers to the module. -/
def Disk.RefersAt (disk : Disk) (extensions : List Text) (roots : List Location)
    (location : Location) (module : Text) : Prop :=
  ∃ declaration, disk.DeclaresAt extensions roots location declaration ∧
    module ∈ declaration.dependencies

section Declarations

variable {before after : Disk} {extensions : List Text} {roots : List Location}
  {location : Location} {declaration : Declaration}

/-- What a file declares depends on what it holds. A path that could be followed on one disk leads
to its location on the other, where the file is. -/
theorem declarationAt_of_fileAt (named : location.Named)
    (same : after.tree.fileAt location = before.tree.fileAt location) :
    after.declarationAt location.path = before.declarationAt location.path := by
  have one {first second : Disk}
      (same : second.tree.fileAt location = first.tree.fileAt location) (declaration : Declaration)
      (declared : first.declarationAt location.path = some declaration) :
      second.declarationAt location.path = some declaration := by
    obtain ⟨text, read, parsed⟩ := declarationAt_eq_some_iff.mp declared
    obtain ⟨place, found⟩ := Disk.find_of_read read
    have located := Disk.locate_of_find found
    refine declarationAt_eq_some_iff.mpr ⟨text, ?_, parsed⟩
    rw [read_path named located, same]
    exact (read_path named located).mp read
  refine Option.ext fun declaration => ⟨?_, ?_⟩
  · exact one same.symm declaration
  · exact one same declaration

namespace Disk.DeclaresAt

/-- A file that declares something has a text that declares it. -/
theorem text (declares : before.DeclaresAt extensions roots location declaration)
    (named : location.Named) : ∃ text, before.tree.fileAt location = some (.text text) ∧
      Declaration.parse text = .ok declaration := by
  obtain ⟨text, read, parsed⟩ := declarationAt_eq_some_iff.mp declares.declared
  obtain ⟨place, found⟩ := find_of_read read
  exact ⟨text, fileAt_of_find named found, parsed⟩

/-- Another text at the same place declares what it declares. -/
theorem of_text {other : Declaration} {text : Text}
    (declares : before.DeclaresAt extensions roots location declaration)
    (rootsNamed : ∀ root ∈ roots, Location.Named root) (named : location.Named)
    (file : after.tree.fileAt location = some (.text text))
    (parsed : Declaration.parse text = .ok other) :
    after.DeclaresAt extensions roots location other := by
  obtain ⟨earlier, read, -⟩ := declarationAt_eq_some_iff.mp declares.declared
  obtain ⟨place, found⟩ := find_of_read read
  refine ⟨declares.source.of_file rootsNamed file,
    declarationAt_eq_some_iff.mpr ⟨text, ?_, parsed⟩⟩
  exact (read_path named (locate_of_find found)).mpr file

end Disk.DeclaresAt

/-- All parts of a location at which a module is referred to are names. -/
theorem Disk.RefersAt.named {module : Text}
    (refers : before.RefersAt extensions roots location module) (named : before.FilesNamed) :
    location.Named := by
  obtain ⟨declaration, declares, -⟩ := refers
  obtain ⟨content, file⟩ := declares.source.file
  exact named location content file

end Declarations

namespace Project

/-- The disk after a file has been renamed: the files that refer to its module have been written,
and the others have been kept but for the file itself. -/
structure Stepped (extensions : List Text) (roots : List Location) (before after : Disk)
    (old : Location) (new : Text) (rename : Option (Text × Text)) (content : Content)
    (target : Location) : Prop where
  named : after.FilesNamed
  confined : Confined before after new
  landed : Landed before old.path new target
  updated : ∀ module newModule, rename = some (module, newModule) → ∀ location,
    before.RefersAt extensions roots location module →
      ∃ earlier later, before.tree.fileAt location = some (.text earlier) ∧
        renameInText module newModule earlier = .ok later ∧
        after.tree.fileAt location = some (.text later)
  kept : ∀ location, (∀ module newModule, rename = some (module, newModule) →
      ¬ before.RefersAt extensions roots location module) →
    after.tree.fileAt location =
      if location = target then some (renamedContent rename content)
      else if location = old then none
      else before.tree.fileAt location

open Action

section Steps

variable {project : Project} {world after : World} {old : Location} {roots : List Location}
  {new : Text} {content : Content} {rename : Option (Text × Text)}
  {dependents written : List Text}

/-- The files that are written with a renamed one are at the locations that refer to its module. By
cases on whether the file declares a module. -/
theorem mem_dependentFiles_iff (named : world.disk.FilesNamed)
    (rootsNamed : ∀ root ∈ roots, Location.Named root)
    (fixed : project.roots = .fixed (roots.map Location.path))
    (renamed : ((project.moduleRename old.path new).run world).1 = .ok rename)
    (asked : ((project.dependentFiles old.path).run world).1 = .ok dependents) {path : Text} :
    path ∈ dependents ↔ ∃ location module newModule, path = Location.path location ∧
      rename = some (module, newModule) ∧
      world.disk.RefersAt project.extensions roots location module := by
  obtain ⟨declared, -⟩ := moduleRename_ok_iff.mp renamed
  obtain ⟨undeclared, rfl⟩ | ⟨module, graph, declares, built, rfl⟩ := dependentFiles_ok asked
  · have same := Option.map_eq_none_iff.mp (Except.ok.inj (declared.symm.trans undeclared))
    simp [same]
  · have same := Except.ok.inj (declared.symm.trans declares)
    obtain ⟨⟨_, newModule⟩, rfl, rfl⟩ := Option.map_eq_some_iff.mp same
    rw [mem_dependentsOf_iff named rootsNamed fixed built]
    constructor
    · rintro ⟨location, path, source, declaration, here, member⟩
      exact ⟨location, _, newModule, path, rfl, declaration, ⟨source, path ▸ here⟩, member⟩
    · rintro ⟨location, name, newName, rfl, equal, declaration, declares, member⟩
      obtain ⟨rfl, -⟩ := Prod.mk.inj (Option.some.inj equal)
      exact ⟨location, rfl, declares.source, declaration, declares.declared, member⟩

/-- Joining two paths brings in nothing but a slash. -/
theorem not_mem_append {c : Char} {base path : Text} (notSlash : c ≠ '/') (inBase : c ∉ base)
    (inPath : c ∉ path) : c ∉ Path.append base path := by
  unfold Path.append
  split
  · exact inPath
  · split
    · simp [inBase, inPath]
    · simp [inBase, inPath, notSlash]

/-- A file goes to a location of names, if no backslash is in play. -/
theorem Landed.named {before : Disk} {target : Location}
    (landed : Landed before old.path new target) (cwdNamed : before.cwd.location.Named)
    (oldNamed : old.Named) (clean : '\\' ∉ new) : target.Named := by
  obtain ⟨other, withdrawn, ⟨content, found⟩ | ⟨located, -, -⟩⟩ := landed
  · rw [← Disk.destination_of_withdrawn withdrawn (Disk.find_file_iff.mp found).1]
    exact named_destination cwdNamed clean
  · rw [← Disk.destination_of_withdrawn withdrawn located]
    refine named_destination cwdNamed (not_mem_append (by decide) clean fun member => ?_)
    obtain ⟨more, whole⟩ := Disk.exists_trimEnd '/' old.path
    exact not_mem_path oldNamed (whole ▸ List.mem_append_left _ (List.mem_of_mem_drop member))

/-- What the rename of a file does to the files that refer to its module and to the others. The
effect on files is known by path from `Carried`; here the paths of dependents are turned into the
locations that refer to the module. -/
theorem stepped_renameFile (named : world.disk.FilesNamed)
    (cwdNamed : world.disk.cwd.location.Named) (rootsNamed : ∀ root ∈ roots, Location.Named root)
    (fixed : project.roots = .fixed (roots.map Location.path))
    (file : world.disk.tree.fileAt old = some content) (clean : '\\' ∉ new)
    (run : (project.renameFile old.path new).run world = (.ok written, after)) :
    ∃ rename target, ((project.moduleRename old.path new).run world).1 = .ok rename ∧
      Stepped project.extensions roots world.disk after.disk old new rename content target := by
  have oldNamed := named old content file
  have below := FileTree.below_of_file (FileTree.fileAt_eq_some_iff.mp file)
  have found := find_of_renameFile (isDirect_path oldNamed below)
    ((destination_path oldNamed).symm ▸ file) run
  rw [destination_path oldNamed] at found
  obtain ⟨rename, dependents, target, renamed, asked, carried⟩ :=
    carried_renameFile found run
  have depends {path : Text} : path ∈ dependents ↔ _ :=
    mem_dependentFiles_iff named rootsNamed fixed renamed asked
  have leads {path : Text} (member : path ∈ dependents) :
      ∃ location : Location, location.Named ∧ path = location.path ∧
        Path.destination path = location := by
    obtain ⟨location, module, newModule, same, -, refers⟩ := depends.mp member
    have locationNamed := refers.named named
    exact ⟨location, locationNamed, same, by simp [same, locationNamed]⟩
  refine ⟨rename, target, renamed, ?_, carried.confined, carried.landed, ?_, ?_⟩
  · intro location held there
    obtain ⟨path, member, here, -⟩ | ⟨-, kept⟩ := carried.files location
    · obtain ⟨other, otherNamed, -, same⟩ := leads member
      exact (same.symm.trans here) ▸ otherNamed
    · rw [kept] at there
      split at there
      · rename_i same
        exact same ▸ carried.landed.named cwdNamed oldNamed clean
      · split at there
        · simp at there
        · exact named location held there
  · intro module newModule same location refers
    have locationNamed := refers.named named
    have member := depends.mpr ⟨location, module, newModule, rfl, same, refers⟩
    obtain ⟨path, inside, here, name, newName, earlier, later, equal, read, worked, written⟩ |
      ⟨others, -⟩ := carried.files location
    · rw [same] at equal
      obtain ⟨rfl, rfl⟩ := Prod.mk.inj (Option.some.inj equal)
      obtain ⟨other, otherNamed, rfl, leading⟩ := leads inside
      obtain rfl := leading.symm.trans here
      obtain ⟨spot, readable⟩ := Disk.find_of_read read
      exact ⟨earlier, later, fileAt_of_find locationNamed readable, worked, written⟩
    · exact absurd (destination_path locationNamed) (others _ member)
  · intro location unrelated
    obtain ⟨path, member, here, -⟩ | ⟨-, kept⟩ := carried.files location
    · obtain ⟨other, module, newModule, rfl, same, refers⟩ := depends.mp member
      rw [destination_path (refers.named named)] at here
      exact absurd (here ▸ refers) (unrelated module newModule same)
    · exact kept

end Steps

end Project

end Relocate
