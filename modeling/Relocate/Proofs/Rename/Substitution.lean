import Relocate.Proofs.Dependents
import Relocate.Proofs.Rename.Listing
import Relocate.Proofs.Rename.References

/-!
# Renaming a directory renames its modules at once

The files below a directory are renamed one after the other, and every rename writes files that the
next one reads. For the files elsewhere this comes to one substitution: each of them declares what
it declared before, and depends on what it depended on before, with all modules of the directory
renamed at once. No new name may be the name of another of these modules, or it would be renamed in
its turn. Nothing may be at the new paths, and where such a path goes back, no file may be where it
leads, even if it can not be followed yet: `beside_replaced`.

The invariant is `Followed`: after some of the renames, every file that has not been moved yet is as
it was, but for its references, in which the modules of the moved files have been renamed.
-/
namespace Relocate

section Substitution

variable {renames others : List (Text × Text)} {module newModule target : Text}

/-- What a target becomes when modules are renamed at once. -/
def substituted (renames : List (Text × Text)) (target : Text) : Text :=
  ((renames.find? fun rename => rename.1 = target).map Prod.snd).getD target

/-- Substituting by one rename is renaming the target. -/
theorem substituted_singleton : substituted [(module, newModule)] target =
    renamedTarget module newModule target := by
  by_cases same : target = module
  · simp [substituted, renamedTarget, same]
  · simp [substituted, renamedTarget, same, Ne.symm same]

/-- Renaming some modules and then others is renaming all of them at once, unless one has got the
name of another. A name that has been replaced is replaced again only by a rename of the new name,
which is excluded. -/
theorem substituted_append
    (apart : ∀ earlier ∈ renames, ∀ later ∈ others, earlier ≠ later → earlier.2 ≠ later.1) :
    substituted others (substituted renames target) = substituted (renames ++ others) target := by
  rw [substituted.eq_def renames, substituted.eq_def (renames ++ others), List.find?_append]
  cases found : renames.find? fun rename => rename.1 = target with
  | none => rfl
  | some earlier =>
    have listed := List.mem_of_find?_eq_some found
    simp only [Option.some_or, Option.map_some, Option.getD_some]
    rw [substituted]
    cases again : others.find? fun rename => rename.1 = earlier.2 with
    | none => rfl
    | some later =>
      have same : later.1 = earlier.2 := by simpa using List.find?_some again
      obtain rfl : earlier = later := Decidable.byContradiction fun differs =>
        apart earlier listed later (List.mem_of_find?_eq_some again) differs same.symm
      rfl

/-- Substituting twice is substituting by both lists of renames, if no new name of the first is an
old name of the second. The set in between loses the order and repetitions, which do not count. -/
theorem sortedSet_substituted (targets : List Text)
    (apart : ∀ earlier ∈ renames, ∀ later ∈ others, earlier ≠ later → earlier.2 ≠ later.1) :
    Text.sortedSet ((Text.sortedSet (targets.map (substituted renames))).map
        (substituted others)) =
      Text.sortedSet (targets.map (substituted (renames ++ others))) := by
  rw [Text.sortedSet_eq_iff]
  intro target
  simp only [List.mem_map, Text.mem_sortedSet, exists_exists_and_eq_and, substituted_append apart]

end Substitution

/-- Where all source files are regular, what they declare is sound. -/
theorem sound_of_regular {disk : Disk} {extensions : List Text} {roots : List Location}
    (named : disk.FilesNamed) (rootsNamed : ∀ root ∈ roots, Location.Named root)
    (regular : ∀ root ∈ roots.map Location.path, ∀ path text, disk.FileBelow root path →
      isSource extensions path = true → disk.read path = .ok (.text text) →
      isRegular text = true) {location : Location} {declaration : Declaration}
    (declares : disk.DeclaresAt extensions roots location declaration) : declaration.Sound := by
  obtain ⟨text, read, parsed⟩ := declarationAt_eq_some_iff.mp declares.declared
  obtain ⟨source, root, member, inside⟩ :=
    (sourceAt_iff_fileBelow _ named rootsNamed read).mp ⟨location, rfl, declares.source⟩
  exact sound_of_isRegular parsed (regular root member _ text inside source read)

namespace Project

/-- The modules that the files of the moves declare, each with the one that it is to become. -/
def moduleRenames (project : Project) : List (Text × Text) → Action (List (Text × Text))
  | [] => pure []
  | (old, new) :: moves => do
    let rename ← project.moduleRename old new
    let others ← project.moduleRenames moves
    pure (rename.toList ++ others)

open Action

section Renames

variable {project : Project} {world : World} {roots : List Location} {path module : Text}

/-- Asking how modules are renamed leaves the disk as it is. By induction on the moves. -/
theorem reads_moduleRenames (project : Project) (moves : List (Text × Text)) :
    Reads (project.moduleRenames moves) := by
  induction moves with
  | nil => exact reads_pure _
  | cons move moves inductionHypothesis =>
    refine (reads_moduleRename project move.1 move.2).bind fun rename => ?_
    exact inductionHypothesis.bind fun others => reads_pure _

/-- The renames of a list of moves are those of one of them between those of the others. By
induction on the moves before it. -/
theorem moduleRenames_split {done later renames : List (Text × Text)} {move : Text × Text}
    (asked : ((project.moduleRenames (done ++ move :: later)).run world).1 = .ok renames) :
    ∃ earlier rename others, ((project.moduleRenames done).run world).1 = .ok earlier ∧
      ((project.moduleRename move.1 move.2).run world).1 = .ok rename ∧
      ((project.moduleRenames later).run world).1 = .ok others ∧
      renames = earlier ++ rename.toList ++ others := by
  have unfolded (move : Text × Text) (moves renames : List (Text × Text)) :
      ((project.moduleRenames (move :: moves)).run world).1 = .ok renames ↔
        ∃ rename, ((project.moduleRename move.1 move.2).run world).1 = .ok rename ∧
          ∃ others, ((project.moduleRenames moves).run world).1 = .ok others ∧
            rename.toList ++ others = renames := by
    rw [moduleRenames, (reads_moduleRename project move.1 move.2).value_bind_ok_iff fun rename =>
      (reads_moduleRenames project moves).bind fun others => reads_pure _]
    refine exists_congr fun rename => and_congr_right fun _ => ?_
    rw [(reads_moduleRenames project moves).value_bind_ok_iff fun others => reads_pure _]
    exact exists_congr fun others => and_congr_right fun _ =>
      ⟨fun same => Except.ok.inj same, fun same => congrArg Except.ok same⟩
  induction done generalizing renames with
  | nil =>
    obtain ⟨rename, first, others, last, rfl⟩ := (unfolded _ _ _).mp asked
    exact ⟨[], rename, others, rfl, first, last, rfl⟩
  | cons before done inductionHypothesis =>
    obtain ⟨first, askedFirst, rest, askedRest, rfl⟩ := (unfolded _ _ _).mp asked
    obtain ⟨earlier, rename, others, askedEarlier, askedHere, last, rfl⟩ :=
      inductionHypothesis askedRest
    exact ⟨first.toList ++ earlier, rename, others,
      (unfolded _ _ _).mpr ⟨first, askedFirst, earlier, askedEarlier, rfl⟩, askedHere, last,
      by simp⟩

/-- A file declares a module if it is a source file and has a usable declaration. By cases on what
has been found. -/
theorem declaredModule_ok {found : Option Text}
    (declared : ((project.declaredModule path).run world).1 = .ok found) :
    found = if isSource project.extensions path then
      (world.disk.declarationAt path).map Declaration.module else none := by
  cases found with
  | some module =>
    obtain ⟨source, text, declaration, read, parsed, rfl⟩ := declaredModule_some declared
    rw [if_pos source, declarationAt_eq_some_iff.mpr ⟨text, read, parsed⟩]
    rfl
  | none =>
    split
    · rename_i source
      cases here : world.disk.declarationAt path with
      | none => rfl
      | some declaration =>
        obtain ⟨text, read, parsed⟩ := declarationAt_eq_some_iff.mp here
        simpa using declaredModule_of_read source read parsed declared
    · rfl

/-- With fixed roots, the module of a path depends on where the path starts. -/
theorem resolve_ok {roots : List Text} (fixed : project.roots = .fixed roots)
    (resolved : ((project.resolve path).run world).1 = .ok module) :
    ∃ start, world.disk.startOf path = .ok start ∧
      resolveModule start roots path = .ok module := by
  obtain ⟨start, middle, started, -, rest⟩ :=
    (asks_startOf path).run_bind_ok rfl (Prod.ext resolved rfl)
  rw [fixed] at rest
  exact ⟨start, run_ofExcept_ok started, run_ofExcept_ok (congrArg Prod.fst rest)⟩

end Renames

/-- The disk after some of the files have been renamed. Of the files that have not been moved, those
that are no source files or declare nothing are as they were. The others declare the modules that
they declared before, and in their references the modules of the moved files have been renamed. -/
structure Followed (extensions : List Text) (roots : List Location) (start current : Disk)
    (done renames : List (Text × Text)) : Prop where
  named : current.FilesNamed
  cwd : start.cwd.Withdrawn current.cwd
  kept : ∀ location content, start.tree.fileAt location = some content →
    location.path ∉ done.map Prod.fst →
    (∀ declaration, ¬ start.DeclaresAt extensions roots location declaration) →
    current.tree.fileAt location = some content
  declares : ∀ location earlier, start.DeclaresAt extensions roots location earlier →
    location.path ∉ done.map Prod.fst →
    ∃ later, current.DeclaresAt extensions roots location later ∧ later.Sound ∧
      later.module = earlier.module ∧
      later.dependencies = Text.sortedSet (earlier.dependencies.map (substituted renames))

section Following

variable {project : Project} {start current after : World} {roots : List Location}
  {old location : Location} {new : Text} {content : Content} {done renames : List (Text × Text)}
  {rename : Option (Text × Text)} {target : Location} {written : List Text}

/-- Before the first rename all files are as they were. -/
theorem followed_start (named : start.disk.FilesNamed)
    (sound : ∀ location declaration,
      start.disk.DeclaresAt project.extensions roots location declaration → declaration.Sound) :
    Followed project.extensions roots start.disk start.disk [] [] := by
  refine ⟨named, .refl _, fun _ _ file _ _ => file, fun location earlier declares _ =>
    ⟨earlier, declares, sound location earlier declares, rfl, ?_⟩⟩
  exact (dependencies_of_fixed fun _ _ => rfl).symm

/-- A file that has not been moved is still there. -/
theorem Followed.file
    (followed : Followed project.extensions roots start.disk current.disk done renames)
    (file : start.disk.tree.fileAt location = some content)
    (pending : location.path ∉ done.map Prod.fst) :
    ∃ later, current.disk.tree.fileAt location = some later := by
  by_cases declares :
      ∃ declaration, start.disk.DeclaresAt project.extensions roots location declaration
  · obtain ⟨earlier, declares⟩ := declares
    obtain ⟨later, declaresNow, -⟩ := followed.declares location earlier declares pending
    exact declaresNow.source.file
  · exact ⟨content, followed.kept location content file pending fun declaration declared =>
      declares ⟨declaration, declared⟩⟩

/-- A file that has not been moved declares the module that it declared at first. By cases on
whether it is a source file with a declaration, whose module is kept; any other file is kept as a
whole. -/
theorem Followed.module
    (followed : Followed project.extensions roots start.disk current.disk done renames)
    (named : start.disk.FilesNamed) (file : start.disk.tree.fileAt location = some content)
    (pending : location.path ∉ done.map Prod.fst) :
    (current.disk.declarationAt location.path).map Declaration.module =
      (start.disk.declarationAt location.path).map Declaration.module := by
  by_cases declares :
      ∃ declaration, start.disk.DeclaresAt project.extensions roots location declaration
  · obtain ⟨earlier, declares⟩ := declares
    obtain ⟨later, declaresNow, -, module, -⟩ :=
      followed.declares location earlier declares pending
    rw [declaresNow.declared, declares.declared, Option.map_some, Option.map_some, module]
  · have same := followed.kept location content file pending fun declaration declared =>
      declares ⟨declaration, declared⟩
    rw [declarationAt_of_fileAt (named location content file)
      (same.trans file.symm)]

/-- A file that has not been moved is to have its module renamed as at first. It declares the same
module, and its new path is resolved from the same start. -/
theorem Followed.moduleRename {other : Option (Text × Text)}
    (followed : Followed project.extensions roots start.disk current.disk done renames)
    (named : start.disk.FilesNamed) (fixed : project.roots = .fixed (roots.map Location.path))
    (file : start.disk.tree.fileAt old = some content) (pending : old.path ∉ done.map Prod.fst)
    (asked : ((project.moduleRename old.path new).run start).1 = .ok rename)
    (askedNow : ((project.moduleRename old.path new).run current).1 = .ok other) :
    other = rename := by
  obtain ⟨declared, resolved⟩ := moduleRename_ok_iff.mp asked
  obtain ⟨declaredNow, resolvedNow⟩ := moduleRename_ok_iff.mp askedNow
  have modules : other.map Prod.fst = rename.map Prod.fst := by
    rw [declaredModule_ok declared, declaredModule_ok declaredNow,
      followed.module named file pending]
  cases rename with
  | none => simpa using modules
  | some pair =>
    obtain ⟨module, newModule⟩ := pair
    obtain ⟨⟨_, newName⟩, rfl, rfl⟩ := Option.map_eq_some_iff.mp modules
    obtain ⟨begin, started, here⟩ := resolve_ok fixed (resolved _ _ rfl)
    obtain ⟨beginNow, startedNow, hereNow⟩ := resolve_ok fixed (resolvedNow _ _ rfl)
    have sameStart := (Disk.startOf_of_withdrawn followed.cwd startedNow).1
    obtain rfl := Except.ok.inj (started.symm.trans sameStart)
    rw [Except.ok.inj (here.symm.trans hereNow)]

/-- A file does not go to where a file is that has not been moved. Nothing was at the new path at
first, and a place where the file has been put into a directory was free. -/
theorem Followed.target_ne
    (followed : Followed project.extensions roots start.disk current.disk done renames)
    (stepped : Stepped project.extensions roots current.disk after.disk old new rename content
      target)
    (absent : start.disk.pathExists new = false)
    (free : ['.', '.'] ∈ Disk.steps new →
      start.disk.tree.fileAt (start.disk.destination new) = none)
    {held : Content} (file : start.disk.tree.fileAt location = some held)
    (pending : location.path ∉ done.map Prod.fst) : location ≠ target := by
  rintro rfl
  obtain ⟨later, fileNow⟩ := followed.file file pending
  obtain ⟨other, withdrawn, ⟨content, found⟩ | ⟨-, nothing, -⟩⟩ := stepped.landed
  · have located := (Disk.find_file_iff.mp found).1
    have withdrawn := followed.cwd.trans withdrawn
    rw [← Disk.destination_of_withdrawn withdrawn located] at file
    by_cases back : ['.', '.'] ∈ Disk.steps new
    · rw [free back] at file
      simp at file
    · have forward := isForward_of_find back found
      rw [FileTree.fileAt_eq_some_iff, Disk.free_of_withdrawn forward
        withdrawn located absent] at file
      simp at file
  · rw [nothing] at fileNow
    simp at fileNow

/-- A file that refers to a module while others are renamed has declared something at first. -/
theorem declares_of_refersAt {module : Text}
    (named : start.disk.FilesNamed) (rootsNamed : ∀ root ∈ roots, Location.Named root)
    (file : start.disk.tree.fileAt location = some content)
    (same : current.disk.tree.fileAt location = some content)
    (refers : current.disk.RefersAt project.extensions roots location module) :
    ∃ declaration, start.disk.DeclaresAt project.extensions roots location declaration := by
  obtain ⟨declaration, ⟨source, declared⟩, -⟩ := refers
  refine ⟨declaration, source.of_file rootsNamed file, ?_⟩
  rw [← declared]
  exact declarationAt_of_fileAt (named location content file)
    (file.trans same.symm)

/-- A file that is not moved itself has its references renamed by a step. By cases on whether it
refers to the renamed module: then it has been rewritten, and otherwise it is kept. -/
theorem Stepped.declaresAt {before after : Disk} {extensions : List Text}
    {declaration : Declaration}
    (stepped : Stepped extensions roots before after old new rename content target)
    (rootsNamed : ∀ root ∈ roots, Location.Named root) (locationNamed : location.Named)
    (notTarget : location ≠ target) (notOld : location ≠ old)
    (declares : before.DeclaresAt extensions roots location declaration)
    (sound : declaration.Sound) (dotted : ∀ pair ∈ rename, isDotted pair.2 = true) :
    ∃ later, after.DeclaresAt extensions roots location later ∧ later.Sound ∧
      later.module = declaration.module ∧ later.dependencies =
        Text.sortedSet (declaration.dependencies.map (substituted rename.toList)) := by
  obtain ⟨text, file, parsed⟩ := declares.text locationNamed
  by_cases refers : ∃ pair ∈ rename, pair.1 ∈ declaration.dependencies
  · obtain ⟨⟨module, newModule⟩, rfl, member⟩ := refers
    obtain ⟨earlier, later, held, worked, fileAfter⟩ :=
      stepped.updated module newModule rfl location ⟨declaration, declares, member⟩
    obtain rfl := Content.text.inj (Option.some.inj (held.symm.trans file))
    obtain ⟨other, parsedAfter, otherSound, sameModule, dependencies⟩ :=
      sound_of_renameInText parsed sound (dotted _ rfl) worked
    refine ⟨other, declares.of_text rootsNamed locationNamed fileAfter
      parsedAfter, otherSound, sameModule, ?_⟩
    rw [dependencies]
    exact congrArg Text.sortedSet (List.map_congr_left fun _ _ => substituted_singleton.symm)
  · have unaffected : ∀ module newModule, rename = some (module, newModule) →
        ¬ before.RefersAt extensions roots location module := by
      rintro module newModule rfl ⟨other, otherDeclares, member⟩
      obtain rfl := Option.some.inj (declares.declared.symm.trans otherDeclares.declared)
      exact refers ⟨_, rfl, member⟩
    have kept := stepped.kept location unaffected
    rw [if_neg notTarget, if_neg notOld, file] at kept
    refine ⟨declaration, declares.of_text rootsNamed locationNamed kept parsed,
      sound, rfl, (dependencies_of_fixed fun name member => ?_).symm⟩
    cases rename with
    | none => rfl
    | some pair =>
      rw [Option.toList_some, substituted_singleton, renamedTarget, if_neg]
      rintro rfl
      exact refers ⟨pair, rfl, member⟩

/-- What one more rename leaves of the invariant. A file that is still to be moved is neither the
moved one nor at its new place, so that the step has only renamed its references. -/
theorem Followed.step
    (followed : Followed project.extensions roots start.disk current.disk done renames)
    (named : start.disk.FilesNamed) (rootsNamed : ∀ root ∈ roots, Location.Named root)
    (absent : start.disk.pathExists new = false)
    (free : ['.', '.'] ∈ Disk.steps new →
      start.disk.tree.fileAt (start.disk.destination new) = none)
    (dotted : ∀ pair ∈ rename, isDotted pair.2 = true)
    (apart : ∀ earlier ∈ renames, ∀ later ∈ rename.toList, earlier ≠ later → earlier.2 ≠ later.1)
    (stepped : Stepped project.extensions roots current.disk after.disk old new rename content
      target) :
    Followed project.extensions roots start.disk after.disk (done ++ [(old.path, new)])
      (renames ++ rename.toList) := by
  have still {location : Location} {held : Content}
      (file : start.disk.tree.fileAt location = some held)
      (pending : location.path ∉ (done ++ [(old.path, new)]).map Prod.fst) :
      location.path ∉ done.map Prod.fst ∧ location ≠ target ∧ location ≠ old := by
    rw [List.map_append, List.mem_append, not_or] at pending
    refine ⟨pending.1, followed.target_ne stepped absent free file pending.1, ?_⟩
    rintro rfl
    simp at pending
  refine ⟨stepped.named, followed.cwd.trans stepped.confined.cwd, ?_, ?_⟩
  · intro location held file pending silent
    obtain ⟨pendingNow, notTarget, notOld⟩ := still file pending
    have same := followed.kept location held file pendingNow silent
    rw [stepped.kept, if_neg notTarget, if_neg notOld, same]
    intro module newModule _ refers
    obtain ⟨declaration, declares⟩ :=
      declares_of_refersAt named rootsNamed file same refers
    exact silent declaration declares
  · intro location earlier declares pending
    obtain ⟨held, file⟩ := declares.source.file
    obtain ⟨pendingNow, notTarget, notOld⟩ := still file pending
    obtain ⟨now, declaresNow, sound, module, dependencies⟩ :=
      followed.declares location earlier declares pendingNow
    obtain ⟨later, declaresAfter, soundAfter, moduleAfter, dependenciesAfter⟩ :=
      stepped.declaresAt rootsNamed (named location held file) notTarget notOld declaresNow sound
        dotted
    refine ⟨later, declaresAfter, soundAfter, moduleAfter.trans module, ?_⟩
    rw [dependenciesAfter, dependencies, sortedSet_substituted _ apart]

/-- What all renames leave of the invariant. By induction along the moves; the renames that are
asked for at each step are those that were asked for at the start. -/
theorem followed_renameEach {moves : List (Text × Text)} (named : start.disk.FilesNamed)
    (cwdNamed : start.disk.cwd.location.Named) (rootsNamed : ∀ root ∈ roots, Location.Named root)
    (fixed : project.roots = .fixed (roots.map Location.path))
    (sound : ∀ location declaration,
      start.disk.DeclaresAt project.extensions roots location declaration → declaration.Sound)
    (distinct : (moves.map Prod.fst).Nodup)
    (sources : ∀ move ∈ moves, ∃ location content, move.1 = Location.path location ∧
      start.disk.tree.fileAt location = some content ∧ '\\' ∉ move.2)
    (absent : ∀ move ∈ moves, start.disk.pathExists move.2 = false)
    (free : ∀ move ∈ moves, ['.', '.'] ∈ Disk.steps move.2 →
      start.disk.tree.fileAt (start.disk.destination move.2) = none)
    (asked : ((project.moduleRenames moves).run start).1 = .ok renames)
    (dotted : ∀ rename ∈ renames, isDotted rename.2 = true)
    (apart : ∀ first ∈ renames, ∀ second ∈ renames, first ≠ second → first.2 ≠ second.1)
    (run : (project.renameEach moves).run start = (.ok written, after)) :
    Followed project.extensions roots start.disk after.disk moves renames := by
  rw [← List.map_id moves] at run
  refine renameEach_preserves id (fun done disk => ∀ given,
    ((project.moduleRenames done).run start).1 = .ok given →
      Followed project.extensions roots start.disk disk done given) ?_ ?_ run renames asked
  · intro given asked
    obtain rfl := Except.ok.inj asked
    exact followed_start named sound
  · rintro done ⟨oldPath, new⟩ later current next written rfl before run given askedGiven
    obtain ⟨old, content, same, file, clean⟩ := sources (oldPath, new) (by simp)
    obtain rfl : oldPath = old.path := same
    obtain ⟨earlier, rename, others, askedEarlier, askedHere, -, rfl⟩ := moduleRenames_split asked
    obtain ⟨again, renameAgain, last, askedAgain, askedHereAgain, askedLast, rfl⟩ :=
      moduleRenames_split askedGiven
    obtain rfl := Except.ok.inj (askedEarlier.symm.trans askedAgain)
    obtain rfl := Except.ok.inj (askedHere.symm.trans askedHereAgain)
    obtain rfl := Except.ok.inj askedLast
    have followed := before earlier askedEarlier
    have pending : old.path ∉ done.map Prod.fst := by
      intro member
      rw [List.map_append, List.nodup_append] at distinct
      exact distinct.2.2 _ member _ (by simp) rfl
    obtain ⟨held, fileNow⟩ := followed.file file pending
    obtain ⟨dropped, above, -⟩ := followed.cwd
    have cwdNamedNow : current.disk.cwd.location.Named := fun name member =>
      cwdNamed name (above ▸ List.mem_append_left _ member)
    obtain ⟨now, target, askedNow, stepped⟩ := stepped_renameFile
      followed.named cwdNamedNow rootsNamed fixed fileNow clean run
    obtain rfl := followed.moduleRename named fixed file pending askedHere askedNow
    rw [List.append_nil]
    refine followed.step named rootsNamed (absent (old.path, new) (by simp))
      (free (old.path, new) (by simp)) ?_ ?_ stepped
    · intro pair member
      exact dotted pair (by simp [Option.mem_def.mp member])
    · intro first firstListed second secondListed
      exact apart first (by simp [firstListed]) second (by simp [Option.mem_toList.mp secondListed])

end Following

/-- After a directory has been renamed, every source file below the roots that has not been moved
with it declares the module that it declared before, and depends on what it depended on before, with
the modules of all files that have been moved renamed at once. The renames are made one after the
other. What each leaves is `Followed`, the substitution by the renames so far, and because no new
name is an old one of another file the steps add up to one substitution. -/
theorem renameDirectory_substitutes {project : Project} {world after : World} {old new : Text}
    {roots written : List Text} {moves renames : List (Text × Text)}
    (ordinary : project.OrdinaryPaths world.disk old new)
    (rooted : (project.roots.list.run world).1 = .ok roots)
    (listed : ((directoryMoves old new).run world).1 = .ok moves)
    (absent : ∀ move ∈ moves, world.disk.pathExists move.2 = false)
    (free : ∀ move ∈ moves, ['.', '.'] ∈ Disk.steps move.2 →
      world.disk.tree.fileAt (world.disk.destination move.2) = none)
    (named : ((project.moduleRenames moves).run world).1 = .ok renames)
    (dotted : ∀ rename ∈ renames, isDotted rename.2 = true)
    (apart : ∀ first ∈ renames, ∀ second ∈ renames, first ≠ second → first.2 ≠ second.1)
    (regular : ∀ root ∈ roots, ∀ path text, world.disk.FileBelow root path →
      isSource project.extensions path = true → world.disk.read path = .ok (.text text) →
      isRegular text = true)
    (run : (project.renameDirectory old new).run world = (.ok written, after)) :
    ∀ root ∈ roots, ∀ path earlier, world.disk.FileBelow root path →
      isSource project.extensions path = true → path ∉ moves.map Prod.fst →
      world.disk.declarationAt path = some earlier →
      ∃ later, after.disk.declarationAt path = some later ∧ later.module = earlier.module ∧
        later.dependencies = Text.sortedSet (earlier.dependencies.map (substituted renames)) := by
  have filesNamed := ordinary.filesNamed
  have cwdNamed := ordinary.cwd
  obtain ⟨locations, rootsNamed, fixed, rfl⟩ := ordinary.exists_listed rooted
  obtain ⟨distinct, sources⟩ := directoryMoves_sources filesNamed cwdNamed ordinary.old
    (isOrdinary_iff.mp ordinary.new).1 listed
  obtain ⟨start, each, disk, renamed⟩ := renameDirectory_ok listed run
  rw [← (reads_moduleRenames project moves).value world start disk] at named
  rw [← disk] at filesNamed cwdNamed sources absent free regular ⊢
  have followed := followed_renameEach filesNamed cwdNamed rootsNamed fixed
    (fun _ _ => sound_of_regular filesNamed rootsNamed regular) distinct sources absent free named
    dotted apart renamed
  intro root member path earlier below source pending declared
  obtain ⟨text, read, -⟩ := declarationAt_eq_some_iff.mp declared
  obtain ⟨location, rfl, here⟩ :=
    (sourceAt_iff_fileBelow _ filesNamed rootsNamed read).mpr ⟨source, root, member, below⟩
  obtain ⟨later, declares, -, module, dependencies⟩ :=
    followed.declares location earlier ⟨here, declared⟩ pending
  exact ⟨later, declares.declared, module, dependencies⟩

/-- A disk with a module in a directory, and one in a file of the same name beside the directory. -/
def beside : World where
  disk :=
    ⟨⟨[(["r".toList], .directory),
      (["r".toList, "a".toList], .directory),
      (["r".toList, "a".toList, "x.clj".toList], .file (.text "(ns a.x)".toList)),
      (["r".toList, "x.clj".toList], .file (.text "(ns x (:require z))".toList))], by decide⟩,
      .ofLocation []⟩
  locked := []
  events := []

/-- The rename of the directory to a path that goes back from a directory that is missing. -/
def besideRenamed : Except Failure (List Text) × World :=
  (oneRoot.renameDirectory "/r/a".toList "/r/q/..".toList).run beside

/-- The new path of the file leads nowhere at first. Once its directory has been made, it leads to
the file beside the directory, which is replaced and loses what it depended on. -/
theorem beside_replaced :
    oneRoot.OrdinaryPaths beside.disk "/r/a".toList "/r/q/..".toList ∧
      ((directoryMoves "/r/a".toList "/r/q/..".toList).run beside).1 =
        .ok [("/r/a/x.clj".toList, "/r/q/../x.clj".toList)] ∧
      beside.disk.pathExists "/r/q/../x.clj".toList = false ∧
      ((oneRoot.moduleRenames [("/r/a/x.clj".toList, "/r/q/../x.clj".toList)]).run beside).1 =
        .ok [("a.x".toList, "x".toList)] ∧
      isDotted "x".toList = true ∧ isRegular "(ns a.x)".toList = true ∧
      isRegular "(ns x (:require z))".toList = true ∧
      besideRenamed.1 = .ok ["/r/q/../x.clj".toList] ∧
      (beside.disk.declarationAt "/r/x.clj".toList).map Declaration.dependencies =
        some ["z".toList] ∧
      (besideRenamed.2.disk.declarationAt "/r/x.clj".toList).map Declaration.dependencies =
        some [] := by
  have ordinary : oneRoot.OrdinaryPaths beside.disk "/r/a".toList "/r/q/..".toList :=
    ⟨⟨⟨[], ["/r".toList], by decide, by decide, rfl⟩, by decide⟩, by decide, by decide, by decide⟩
  exact ⟨ordinary, by decide +kernel⟩

/-- A disk with a file in a directory, which declares a module, and a file beside the directory that
refers to the module. -/
def referred (name module : Text) : World where
  disk :=
    ⟨⟨[(["r".toList], .directory),
      (["r".toList, "a".toList], .directory),
      (["r".toList, "a".toList, name], .file (.text ("(ns ".toList ++ module ++ ")".toList))),
      (["r".toList, "u.clj".toList],
        .file (.text ("(ns u (:require ".toList ++ module ++ "))".toList)))],
      of_decide_eq_true rfl⟩,
      .ofLocation []⟩
  locked := []
  events := []

/-- The module of a file that is no source file is not renamed with its directory, although the file
has a usable declaration and is moved. What refers to it still has the old name. -/
theorem plainFile_keeps_module :
    let world := referred "n.txt".toList "a.n".toList
    let renamed := (oneRoot.renameDirectory "/r/a".toList "/r/b".toList).run world
    (world.disk.declarationAt "/r/a/n.txt".toList).map Declaration.module = some "a.n".toList ∧
      ((oneRoot.resolve "/r/b/n.txt".toList).run world).1 = .ok "b.n".toList ∧
      renamed.1 = .ok ["/r/b/n.txt".toList] ∧
      (renamed.2.disk.declarationAt "/r/u.clj".toList).map Declaration.dependencies =
        some ["a.n".toList] := by
  decide +kernel

/-- The new path of a file starts behind as many characters as the path of the directory has. If
that is longer than it needs to be, the file gets another name, and its module, too. -/
theorem longerDirectory_cuts_name :
    let world := referred "x.clj".toList "a.x".toList
    let renamed := (oneRoot.renameDirectory "/r/./a".toList "/r/b".toList).run world
    world.disk.pathExists "/r/b/x.clj".toList = false ∧
      ((oneRoot.resolve "/r/b/x.clj".toList).run world).1 = .ok "b.x".toList ∧
      renamed.1 = .ok ["/r/b/clj".toList, "/r/u.clj".toList] ∧
      (renamed.2.disk.declarationAt "/r/u.clj".toList).map Declaration.dependencies =
        some ["b.clj".toList] := by
  decide +kernel

/-- A disk with a directory of two modules, one of which refers to the other, and a file outside
that refers to both. -/
def outsider : World where
  disk :=
    ⟨⟨[(["r".toList], .directory),
      (["r".toList, "a".toList], .directory),
      (["r".toList, "a".toList, "n.txt".toList], .file (.text "a.x".toList)),
      (["r".toList, "a".toList, "x.clj".toList], .file (.text "(ns a.x)".toList)),
      (["r".toList, "a".toList, "y.clj".toList], .file (.text "(ns a.y (:require a.x))".toList)),
      (["r".toList, "u.clj".toList],
        .file (.text "(ns u (:require [a.x :as q] a.y z))\n(q/f)".toList))], by decide⟩,
      .ofLocation []⟩
  locked := []
  events := []

/-- The rename of the directory to a path that starts from the current directory. -/
def outsiderRenamed : Except Failure (List Text) × World :=
  (oneRoot.renameDirectory "/r/a".toList "r/b".toList).run outsider

/-- After this rename the file outside the directory asks for both modules by their new names, and
for the third one as before. -/
theorem renameDirectory_substitutes_outsider :
    ∃ later, outsiderRenamed.2.disk.declarationAt "/r/u.clj".toList = some later ∧
      later.module = "u".toList ∧
      later.dependencies = ["b.x".toList, "b.y".toList, "z".toList] := by
  have ordinary : oneRoot.OrdinaryPaths outsider.disk "/r/a".toList "r/b".toList :=
    ⟨⟨⟨[], ["/r".toList], by decide, by decide, rfl⟩, by decide⟩, by decide, by decide, by decide⟩
  have written : outsiderRenamed.1 = .ok ["/r/u.clj".toList, "r/b/n.txt".toList,
      "r/b/x.clj".toList, "r/b/y.clj".toList] := by decide +kernel
  have run : outsiderRenamed = (.ok ["/r/u.clj".toList, "r/b/n.txt".toList, "r/b/x.clj".toList,
      "r/b/y.clj".toList], outsiderRenamed.2) := by
    rw [← written]
  have regular : ∀ entry ∈ outsider.disk.tree.entries, ∀ text,
      entry.2 = .file (.text text) → isRegular text = true := by
    simp only [outsider, List.forall_mem_cons, reduceCtorEq, Node.file.injEq, Content.text.injEq,
      forall_eq', false_implies, implies_true, true_and, List.not_mem_nil]
    decide +kernel
  have below : ∀ root ∈ ["/r".toList], ∀ path text, outsider.disk.FileBelow root path →
      isSource oneRoot.extensions path = true → outsider.disk.read path = .ok (.text text) →
      isRegular text = true := by
    rintro root member path text ⟨-, names, content, -, rfl, file⟩ source read
    have locationNamed := ordinary.filesNamed _ content file
    obtain ⟨place, there⟩ := Disk.find_of_read read
    have held := FileTree.fileAt_eq_some_iff.mp (fileAt_of_find locationNamed there)
    exact regular _ (FileTree.mem_entries_of_file held) _ rfl
  have declared : outsider.disk.declarationAt "/r/u.clj".toList = some ⟨"u".toList, [], [],
      [.references "require".toList
        [.requirement ⟨"a.x".toList, some "q".toList, none, false, [], false⟩,
          .requirement (.plain "a.y".toList true), .requirement (.plain "z".toList true)]]⟩ := by
    decide +kernel
  have rooted : (oneRoot.roots.list.run outsider).1 = .ok ["/r".toList] := by decide +kernel
  have listed : ((directoryMoves "/r/a".toList "r/b".toList).run outsider).1 =
      .ok [("/r/a/n.txt".toList, "r/b/n.txt".toList), ("/r/a/x.clj".toList, "r/b/x.clj".toList),
        ("/r/a/y.clj".toList, "r/b/y.clj".toList)] := by decide +kernel
  have named : ((oneRoot.moduleRenames [("/r/a/n.txt".toList, "r/b/n.txt".toList),
      ("/r/a/x.clj".toList, "r/b/x.clj".toList),
      ("/r/a/y.clj".toList, "r/b/y.clj".toList)]).run outsider).1 =
        .ok [("a.x".toList, "b.x".toList), ("a.y".toList, "b.y".toList)] := by decide +kernel
  have file : outsider.disk.FileBelow "/r".toList "/r/u.clj".toList :=
    ⟨by decide +kernel, ["u.clj".toList], _, by decide, by decide +kernel, rfl⟩
  have substitutes := renameDirectory_substitutes ordinary rooted listed (by decide +kernel)
    (by decide +kernel) named (by decide) (by decide) below run
  obtain ⟨later, found, module, dependencies⟩ := substitutes "/r".toList (by decide)
    "/r/u.clj".toList _ file (by decide +kernel) (by decide) declared
  exact ⟨later, found, module, dependencies.trans (by decide +kernel)⟩

end Project

end Relocate
