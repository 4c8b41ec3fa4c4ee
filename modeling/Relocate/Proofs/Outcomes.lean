import Relocate.Proofs.Actions

/-!
# However an action ends

A failed action leaves a world behind as a successful one does. `Leaves` says what holds of the disk
that a run leaves, whichever way it ends, and `FailsWith` says what holds of a failure and of the
disk at that moment. Both are carried through a sequence one action at a time. The actions that
change the disk fail by faults only.
-/
namespace Relocate.Action

section Endings

variable {α β : Type} {action : Action α} {next : α → Action β} {world : World}

/-- A sequence goes on the same way from the same outcome. -/
theorem run_bind_congr {other : Action α} {start : World}
    (same : action.run world = other.run start) (next : α → Action β) :
    (action >>= next).run world = (other >>= next).run start := by
  simp [same]

/-- After an action that only reads and gives a value, a sequence goes on from the same disk. -/
theorem Reads.run_bind_of_ok (reads : Reads action) {base : World} (same : world.disk = base.disk)
    {value : α} (given : (action.run base).1 = .ok value) (next : α → Action β) :
    ∃ middle, middle.disk = base.disk ∧
      (action >>= next).run world = (next value).run middle := by
  have disk := reads.disk world
  rw [← reads.value base world same] at given
  refine ⟨(action.run world).2, disk.trans same, ?_⟩
  rw [run_bind]
  generalize action.run world = result at given
  obtain ⟨first, middle⟩ := result
  obtain rfl : first = .ok value := given
  rfl

/-- The property holds of the disk that the run leaves, whichever way it ends. -/
def Leaves (action : Action α) (world : World) (P : Disk → Prop) : Prop :=
  P (action.run world).2.disk

/-- What the first action of a sequence leaves is left if the rest leaves it, too. -/
theorem leaves_bind {P : Disk → Prop} (first : Leaves action world P)
    (went : ∀ value middle, action.run world = (.ok value, middle) → P middle.disk →
      Leaves (next value) middle P) : Leaves (action >>= next) world P := by
  have left {result : Except Failure α} {middle : World}
      (ran : action.run world = (result, middle)) : P middle.disk := by
    rw [Leaves, ran] at first
    exact first
  exact run_bind_cases (P := fun outcome => P outcome.2.disk)
    (fun _ _ ran => left ran) fun value middle ran => went value middle ran (left ran)

/-- An action that only reads leaves what was there. -/
theorem Reads.leaves (reads : Reads action) {P : Disk → Prop} (held : P world.disk) :
    Leaves action world P := by
  rw [Leaves, reads.disk]
  exact held

/-- After an action that only reads, a sequence goes on from the same disk. -/
theorem Reads.leaves_bind (reads : Reads action) {base : World} (same : world.disk = base.disk)
    {P : Disk → Prop} (held : P base.disk)
    (went : ∀ value middle, (action.run base).1 = .ok value → middle.disk = base.disk →
      Leaves (next value) middle P) : Leaves (action >>= next) world P := by
  have disk := reads.disk world
  have given := reads.value base world same
  refine Action.leaves_bind (reads.leaves (same ▸ held)) fun value middle ran _ => ?_
  rw [ran] at disk given
  exact went value middle given.symm (disk.trans same)

/-- If the run fails, the property holds of the failure and of the disk that is left. -/
def FailsWith (action : Action α) (world : World) (P : Failure → Disk → Prop) : Prop :=
  ∀ failure after, action.run world = (.error failure, after) → P failure after.disk

/-- An action that does nothing but fail leaves the disk as it was, so that the property is needed
of this disk and the failure. -/
theorem failsWith_fail {failure : Failure} {P : Failure → Disk → Prop}
    (held : P failure world.disk) : FailsWith (fail failure : Action α) world P := by
  rintro _ _ ⟨⟩
  exact held

/-- A sequence fails as its first action does, or as the rest does from the world in between. -/
theorem failsWith_bind {P : Failure → Disk → Prop} (first : FailsWith action world P)
    (went : ∀ value middle, action.run world = (.ok value, middle) →
      FailsWith (next value) middle P) : FailsWith (action >>= next) world P := by
  refine run_bind_cases
    (P := fun outcome => ∀ failure after, outcome = (.error failure, after) → P failure after.disk)
    ?_ went
  rintro failure middle ran _ _ ⟨⟩
  exact first failure middle ran

/-- If the first action of a sequence only reads, it fails with the disk of the start, and the rest
goes on from this disk. -/
theorem Reads.failsWith_bind (reads : Reads action) {base : World} (same : world.disk = base.disk)
    {P : Failure → Disk → Prop}
    (first : ∀ failure, (action.run base).1 = .error failure → P failure base.disk)
    (went : ∀ value middle, (action.run base).1 = .ok value → middle.disk = base.disk →
      FailsWith (next value) middle P) : FailsWith (action >>= next) world P := by
  have disk := reads.disk world
  have given := reads.value base world same
  refine Action.failsWith_bind (fun failure after ran => ?_) fun value middle ran => ?_
  · rw [ran] at disk given
    rw [disk, same]
    exact first failure given.symm
  · rw [ran] at disk given
    exact went value middle given.symm (disk.trans same)

/-- What takes the place of a value is wrapped and fails with the disk as it was. -/
theorem failsWith_ofExcept {ε : Type} {wrap : ε → Failure} {result : Except ε α}
    {P : Failure → Disk → Prop}
    (failed : ∀ error, result = .error error → P (wrap error) world.disk) :
    FailsWith (ofExcept wrap result) world P := by
  cases result with
  | ok value =>
    intro failure after ran
    simp at ran
  | error error => exact failsWith_fail (failed error rfl)

end Endings

section Faults

variable {α β : Type}

/-- What is allowed for every fault holds however such an action fails. -/
theorem OnlyFaults.failsWith {action : Action α} (faults : OnlyFaults action) {world : World}
    {P : Failure → Disk → Prop}
    (allowed : ∀ failure disk, failure.isFault = true → P failure disk) :
    FailsWith action world P :=
  fun failure after ran => allowed failure after.disk (faults world failure (by rw [ran]))

/-- A loop fails by faults only if every round does. By induction on the items. -/
theorem onlyFaults_forEach {items : List α} {action : α → Action Unit}
    (each : ∀ item, OnlyFaults (action item)) : OnlyFaults (forEach items action) := by
  induction items with
  | nil => exact onlyFaults_pure ()
  | cons item items inductionHypothesis => exact (each item).bind fun _ => inductionHypothesis

/-- Setting a disk fails only by the error that is passed on with it. -/
theorem onlyFaults_setDisk {ε : Type} (wrap : ε → Failure)
    (fault : ∀ error, (wrap error).isFault = true) (disk : Disk) (error : Option ε) :
    OnlyFaults (setDisk disk (error.map wrap)) := by
  intro world failure failed
  cases error with
  | none => simp at failed
  | some error =>
    obtain rfl := Except.error.inj failed
    exact fault error

/-- Writing a text fails by faults only: the path is locked, holds a null character, or the disk
refuses to write there. -/
theorem onlyFaults_writeText (path text : Text) : OnlyFaults (writeText path text) := by
  refine onlyFaults_world fun world => ?_
  split
  · exact onlyFaults_fail rfl
  · refine (asks_checkPath path).faults.bind fun _ => ?_
    split
    · exact onlyFaults_setDisk Failure.os (fun _ => rfl) _ none
    · exact onlyFaults_fail rfl

/-- Removing a directory fails by faults only. -/
theorem onlyFaults_removeDirectory (path : Text) : OnlyFaults (removeDirectory path) := by
  refine (asks_checkPath path).faults.bind fun _ => onlyFaults_world fun world => ?_
  split
  · exact onlyFaults_setDisk Failure.os (fun _ => rfl) _ none
  · exact onlyFaults_fail rfl

/-- Making directories fails by faults only, also half-way. -/
theorem onlyFaults_makeDirectories (path : Text) : OnlyFaults (makeDirectories path) :=
  (asks_checkPath path).faults.bind fun _ => onlyFaults_world fun _ =>
    onlyFaults_setDisk Failure.os (fun _ => rfl) _ _

/-- Moving something fails by faults only, also half-way. -/
theorem onlyFaults_move (old new : Text) : OnlyFaults (move old new) :=
  (asks_checkPath old).faults.bind fun _ => (asks_checkPath new).faults.bind fun _ =>
    onlyFaults_world fun _ => onlyFaults_setDisk Failure.move (fun _ => rfl) _ _

end Faults

section Disks

variable {world : World} {path : Text} {P : Disk → Prop}

/-- A text is written, or the disk stays as it is. -/
theorem leaves_writeText {text : Text} (kept : P world.disk)
    (written : ∀ disk, world.disk.write path (.text text) = .ok disk → P disk) :
    Leaves (writeText path text) world P := by
  rw [Leaves, writeText, run_world_bind]
  split
  · exact kept
  · refine (asks_checkPath path).leaves_bind rfl kept fun _ middle _ disk => ?_
    split
    · rename_i after done
      exact written after done
    · exact (reads_fail _).leaves (disk ▸ kept)

/-- An empty directory is removed, or the disk stays as it is. -/
theorem leaves_removeDirectory (kept : P world.disk)
    (removed : ∀ disk, world.disk.removeDirectory path = .ok disk → P disk) :
    Leaves (removeDirectory path) world P := by
  refine (asks_checkPath path).leaves_bind rfl kept fun _ middle _ disk => ?_
  rw [Leaves, run_world_bind, disk]
  split
  · rename_i after done
    exact removed after done
  · exact (reads_fail _).leaves (disk ▸ kept)

/-- What a disk that is set means, if it is followed by a failure or not. -/
theorem disk_setDisk (disk : Disk) (failure : Option Failure) (world : World) :
    ((setDisk disk failure).run world).2.disk = disk := by
  cases failure with
  | none => rfl
  | some failure => rfl

/-- Directories are made as far as that goes. -/
theorem leaves_makeDirectories (kept : P world.disk)
    (made : P (world.disk.makeDirectories path).1) :
    Leaves (makeDirectories path) world P := by
  refine (asks_checkPath path).leaves_bind rfl kept fun _ middle _ disk => ?_
  rw [Leaves, run_world_bind, disk_setDisk, disk]
  exact made

/-- Something is moved as far as that goes. -/
theorem leaves_move {old new : Text} (kept : P world.disk) (moved : P (world.disk.move old new).1) :
    Leaves (move old new) world P := by
  refine (asks_checkPath old).leaves_bind rfl kept fun _ first _ disk => ?_
  refine (asks_checkPath new).leaves_bind disk kept fun _ middle _ disk => ?_
  rw [Leaves, run_world_bind, disk_setDisk, disk]
  exact moved

end Disks

end Relocate.Action
