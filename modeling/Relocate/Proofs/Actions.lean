import Relocate.SourceRoots
import Relocate.Proofs.Disk.Moves

/-!
# What actions do to a world

A sequence of actions succeeds if each of them does, from the world that the one before left. Many
actions only read: they leave the disk as it is, and what they give depends on the disk alone. The
others change the disk by one operation.

Failures are of three kinds. A refusal is about what was asked, a fault comes from the disk, and the
others are about what a file holds. Most of the actions that only read do no more than ask the disk:
they fail by faults only.
-/
namespace Relocate

/-- The failure refuses what was asked. -/
def Failure.isRefusal : Failure → Bool
  | .argument _ | .resolution _ => true
  | _ => false

/-- The failure comes from the disk. -/
def Failure.isFault : Failure → Bool
  | .move _ | .os _ | .writeRefused _ | .nullInPath => true
  | _ => false

namespace Action

section Sequences

variable {α β : Type} {world after : World}

/-- A sequence succeeds if its parts do. -/
theorem run_bind_ok_iff {action : Action α} {next : α → Action β} {value : β} :
    (action >>= next).run world = (.ok value, after) ↔
      ∃ first middle, action.run world = (.ok first, middle) ∧
        (next first).run middle = (.ok value, after) := by
  rw [run_bind]
  obtain ⟨result, middle⟩ := action.run world
  cases result with
  | error failure => simp
  | ok first =>
    constructor
    · intro run
      exact ⟨first, middle, rfl, run⟩
    · rintro ⟨other, between, same, run⟩
      obtain ⟨equal, rfl⟩ := Prod.mk.inj same
      rw [Except.ok.inj equal]
      exact run

/-- A sequence ends as its first action fails, or as the rest of it ends. -/
theorem run_bind_cases {action : Action α} {next : α → Action β}
    {P : Except Failure β × World → Prop}
    (failed : ∀ failure middle, action.run world = (.error failure, middle) →
      P (.error failure, middle))
    (went : ∀ value middle, action.run world = (.ok value, middle) → P ((next value).run middle)) :
    P ((action >>= next).run world) := by
  rw [run_bind]
  generalize ran : action.run world = result at failed went
  obtain ⟨given, middle⟩ := result
  cases given with
  | error failure => exact failed failure middle rfl
  | ok value => exact went value middle rfl

/-- A value that an action gives is the one that it was made of. -/
theorem run_ofExcept_ok {ε : Type} {wrap : ε → Failure} {result : Except ε α} {value : α}
    (given : ((ofExcept wrap result).run world).1 = .ok value) : result = .ok value := by
  cases result with
  | error failure => simp at given
  | ok other => exact congrArg Except.ok (Except.ok.inj given)

/-- What is asked of the world goes on from it. -/
theorem run_world_bind (next : World → Action α) (world : World) :
    (Action.world >>= next).run world = (next world).run world := rfl

end Sequences

section Reading

variable {α β : Type}

/-- The action leaves the disk as it is, and what it gives depends on the disk alone. -/
structure Reads (action : Action α) : Prop where
  disk : ∀ world, (action.run world).2.disk = world.disk
  value : ∀ world other : World, other.disk = world.disk →
    (action.run other).1 = (action.run world).1

/-- Giving a value asks nothing of the world and changes nothing in it. -/
@[simp] theorem reads_pure (value : α) : Reads (Pure.pure value : Action α) :=
  ⟨fun _ => rfl, fun _ _ _ => rfl⟩

/-- To fail without further ado leaves the world as it is. -/
@[simp] theorem reads_fail (failure : Failure) : Reads (fail failure : Action α) :=
  ⟨fun _ => rfl, fun _ _ _ => rfl⟩

/-- Recording an event leaves the disk as it is; the events are no part of what is read. -/
@[simp] theorem reads_emit (event : Event) : Reads (emit event) :=
  ⟨fun _ => rfl, fun _ _ _ => rfl⟩

/-- A value, or the failure in its place, leaves the world as it is. -/
@[simp] theorem reads_ofExcept {ε : Type} (wrap : ε → Failure) (result : Except ε α) :
    Reads (ofExcept wrap result) := by
  cases result with
  | ok value => exact reads_pure value
  | error failure => exact reads_fail _

/-- A sequence of actions that only read only reads. The second action starts from the disk that the
first one has left as it was. -/
theorem Reads.bind {action : Action α} {next : α → Action β} (first : Reads action)
    (later : ∀ value, Reads (next value)) : Reads (action >>= next) := by
  constructor
  · intro world
    have kept := first.disk world
    rw [run_bind]
    generalize action.run world = ran at kept
    obtain ⟨result, middle⟩ := ran
    cases result with
    | error failure => exact kept
    | ok value => exact ((later value).disk middle).trans kept
  · intro world other same
    have agree := first.value world other same
    have kept := first.disk world
    have keptOther := first.disk other
    rw [run_bind, run_bind]
    generalize action.run world = ran at agree kept
    generalize action.run other = ranOther at agree keptOther
    obtain ⟨result, middle⟩ := ran
    obtain ⟨resultOther, middleOther⟩ := ranOther
    obtain rfl : resultOther = result := agree
    cases resultOther with
    | error failure => rfl
    | ok value =>
      exact (later value).value middle middleOther (keptOther.trans (same.trans kept.symm))

/-- What is asked of the disk alone. -/
theorem reads_world {next : World → Action α} (reads : ∀ world, Reads (next world))
    (same : ∀ world other : World, other.disk = world.disk → next other = next world) :
    Reads (Action.world >>= next) := by
  constructor
  · intro world
    exact (reads world).disk world
  · intro world other equal
    change ((next other).run other).1 = ((next world).run world).1
    rw [same world other equal]
    exact (reads world).value world other equal

/-- The rest of a sequence goes on from the same disk after an action that only reads. What was read
is what any world with this disk gives. -/
theorem Reads.run_bind_ok {action : Action α} (reads : Reads action) {next : α → Action β}
    {base world after : World} {value : β} (same : world.disk = base.disk)
    (run : (action >>= next).run world = (.ok value, after)) :
    ∃ first middle, (action.run base).1 = .ok first ∧ middle.disk = base.disk ∧
      (next first).run middle = (.ok value, after) := by
  obtain ⟨first, middle, ran, rest⟩ := run_bind_ok_iff.mp run
  have disk := reads.disk world
  have given := reads.value base world same
  rw [ran] at disk given
  exact ⟨first, middle, given.symm, disk.trans same, rest⟩

/-- Actions that only read may all be taken to start from the same world. -/
theorem Reads.value_bind_ok_iff {action : Action α} (reads : Reads action) {next : α → Action β}
    (later : ∀ first, Reads (next first)) {world : World} {value : β} :
    ((action >>= next).run world).1 = .ok value ↔
      ∃ first, (action.run world).1 = .ok first ∧ ((next first).run world).1 = .ok value := by
  have disk := reads.disk world
  rw [run_bind]
  generalize action.run world = result at disk
  obtain ⟨given, middle⟩ := result
  cases given with
  | error failure => simp
  | ok first =>
    have same := (later first).value world middle disk
    simp only [same, Except.ok.injEq, exists_eq_left']

end Reading

section Faults

variable {α β : Type}

/-- Whatever the world is, the action fails by faults of the disk only. -/
def OnlyFaults (action : Action α) : Prop :=
  ∀ world failure, (action.run world).1 = .error failure → failure.isFault = true

/-- An action that gives a value does not fail at all. -/
@[simp] theorem onlyFaults_pure (value : α) : OnlyFaults (Pure.pure value : Action α) := by
  intro world failure failed
  simp at failed

/-- Recording an event does not fail. -/
@[simp] theorem onlyFaults_emit (event : Event) : OnlyFaults (emit event) := by
  intro world failure failed
  simp at failed

/-- An action that does nothing but fail fails by a fault if its failure is one. -/
theorem onlyFaults_fail {failure : Failure} (fault : failure.isFault = true) :
    OnlyFaults (fail failure : Action α) := by
  intro world other failed
  obtain rfl := Except.error.inj failed
  exact fault

/-- What takes the place of a value is a fault if every error is turned into one. -/
theorem onlyFaults_ofExcept {ε : Type} {wrap : ε → Failure} {result : Except ε α}
    (fault : ∀ error, (wrap error).isFault = true) : OnlyFaults (ofExcept wrap result) := by
  cases result with
  | ok value => exact onlyFaults_pure value
  | error error => exact onlyFaults_fail (fault error)

/-- A sequence of actions that fail by faults only does so, too. -/
theorem OnlyFaults.bind {action : Action α} {next : α → Action β} (first : OnlyFaults action)
    (later : ∀ value, OnlyFaults (next value)) : OnlyFaults (action >>= next) := by
  intro world
  refine run_bind_cases
    (P := fun outcome => ∀ failure, outcome.1 = .error failure → failure.isFault = true) ?_ ?_
  · rintro failure middle ran _ ⟨⟩
    exact first world failure (by rw [ran])
  · intro value middle _
    exact later value middle

/-- What is done with the world fails by faults only if it does so with every world. -/
theorem onlyFaults_world {next : World → Action α} (later : ∀ world, OnlyFaults (next world)) :
    OnlyFaults (Action.world >>= next) := fun world => later world world

end Faults

section Asking

variable {α β : Type}

/-- The action asks the disk: it only reads, and fails by faults of the disk only. -/
structure Asks (action : Action α) : Prop extends Reads action where
  faults : OnlyFaults action

/-- Giving a value is to ask nothing. -/
@[simp] theorem asks_pure (value : α) : Asks (Pure.pure value : Action α) :=
  ⟨reads_pure value, onlyFaults_pure value⟩

/-- Recording an event changes no disk and does not fail. -/
@[simp] theorem asks_emit (event : Event) : Asks (emit event) :=
  ⟨reads_emit event, onlyFaults_emit event⟩

/-- To fail by a fault is an answer that the disk may give. -/
theorem asks_fail {failure : Failure} (fault : failure.isFault = true) :
    Asks (fail failure : Action α) := ⟨reads_fail failure, onlyFaults_fail fault⟩

/-- A sequence of questions is a question: it only reads because its parts do, and fails by faults
only for the same reason. -/
theorem Asks.bind {action : Action α} {next : α → Action β} (first : Asks action)
    (later : ∀ value, Asks (next value)) : Asks (action >>= next) :=
  ⟨first.toReads.bind fun value => (later value).toReads,
    first.faults.bind fun value => (later value).faults⟩

/-- What the disk tells in any case. -/
@[simp] theorem asks_told (tell : Disk → α) :
    Asks (Action.world >>= fun world => Pure.pure (tell world.disk)) := by
  refine ⟨reads_world (fun world => reads_pure _) fun world other same => ?_,
    onlyFaults_world fun world => onlyFaults_pure _⟩
  rw [same]

/-- What the disk tells, or why it does not. -/
theorem asks_answer {ε : Type} {wrap : ε → Failure} (fault : ∀ error, (wrap error).isFault = true)
    (answer : Disk → Except ε α) :
    Asks (Action.world >>= fun world => ofExcept wrap (answer world.disk)) := by
  refine ⟨reads_world (fun world => reads_ofExcept _ _) fun world other same => ?_,
    onlyFaults_world fun world => onlyFaults_ofExcept fault⟩
  rw [same]

/-- Checking a path for null characters reads nothing and fails by a fault. -/
@[simp] theorem asks_checkPath (path : Text) : Asks (checkPath path) := by
  unfold checkPath
  split
  · exact asks_fail rfl
  · exact asks_pure _

/-- Reading a file leaves the disk as it is and fails by faults only, whatever the file holds. -/
@[simp] theorem asks_readContent (path : Text) : Asks (readContent path) :=
  (asks_checkPath path).bind fun _ => asks_answer (fun _ => rfl) (·.read path)

/-- Looking at what is at a path leaves the disk as it is and fails by faults only. -/
@[simp] theorem asks_look (path : Text) : Asks (look path) :=
  asks_answer (fun _ => rfl) (·.look (Path.tidy path))

/-- Asking if a file is at a path fails only where looking there does. -/
@[simp] theorem asks_isFile (path : Text) : Asks (isFile path) := by
  refine (asks_look path).bind fun node => ?_
  split <;> exact asks_pure _

/-- Asking if a directory is at a path fails only where looking there does. -/
@[simp] theorem asks_isDirectory (path : Text) : Asks (isDirectory path) := by
  refine (asks_look path).bind fun node => ?_
  split <;> exact asks_pure _

/-- Listing a directory leaves the disk as it is and fails by faults only. -/
@[simp] theorem asks_list (path : Text) : Asks (list path) :=
  (asks_checkPath path).bind fun _ => asks_answer (fun _ => rfl) (·.list path)

/-- Asking where a path starts from fails only if the current directory is gone. -/
@[simp] theorem asks_startOf (path : Text) : Asks (startOf path) :=
  asks_answer (fun _ => rfl) (·.startOf path)

/-- Normalizing a path asks the disk for the current directory and for nothing else. -/
@[simp] theorem asks_normalize (path : Text) : Asks (normalize path) :=
  asks_answer (fun _ => rfl) (·.normalize path)

/-- Normalizing several paths asks for one after the other. By induction on the list. -/
@[simp] theorem asks_normalizeAll (paths : List Text) : Asks (normalizeAll paths) := by
  induction paths with
  | nil => exact asks_pure []
  | cons path paths inductionHypothesis =>
    refine (asks_normalize path).bind fun first => ?_
    exact inductionHypothesis.bind fun others => asks_pure _

/-- Keeping those of several paths that are directories asks about one after the other. By induction
on the list. -/
@[simp] theorem asks_directoriesAmong (paths : List Text) :
    Asks (SourceRoots.directoriesAmong paths) := by
  induction paths with
  | nil => exact asks_pure []
  | cons path paths inductionHypothesis =>
    refine (asks_isDirectory path).bind fun directory => ?_
    split
    · refine (asks_normalize path).bind fun first => ?_
      exact inductionHypothesis.bind fun others => asks_pure _
    · exact inductionHypothesis

/-- Listing the source roots only asks, whether they are given or looked for in a project. -/
@[simp] theorem asks_roots (roots : SourceRoots) : Asks roots.list := by
  cases roots with
  | fixed roots => exact asks_pure roots
  | project directory names =>
    refine (asks_directoriesAmong _).bind fun found => ?_
    split
    · refine (asks_emit _).bind fun _ => ?_
      exact (asks_normalize directory).bind fun root => asks_pure _
    · exact asks_pure _

/-- Reading a text may also fail for what the file holds. -/
@[simp] theorem reads_readText (path : Text) : Reads (readText path) := by
  refine (asks_readContent path).toReads.bind fun content => ?_
  cases content with
  | text text => exact reads_pure text
  | binary bytes fault => exact reads_fail _

end Asking

section Changing

variable {world after : World} {path : Text}

/-- What is read is what the disk gives. -/
theorem run_readContent_ok {content : Content}
    (read : ((readContent path).run world).1 = .ok content) :
    world.disk.read path = .ok content := by
  rw [readContent, (asks_checkPath path).value_bind_ok_iff fun _ =>
    (asks_answer (fun _ => rfl) (·.read path)).toReads] at read
  obtain ⟨-, -, held⟩ := read
  exact run_ofExcept_ok held

/-- A file that the disk gives is read, and nothing else happens. -/
theorem run_readContent {content : Content} (held : world.disk.read path = .ok content) :
    (readContent path).run world = (.ok content, world) := by
  obtain ⟨place, found⟩ := Disk.find_of_read held
  obtain ⟨located, -, -⟩ := Disk.find_file_iff.mp found
  obtain ⟨clean, -, -, -⟩ := Disk.followFrom_ok_iff.mp located
  simp [readContent, checkPath, clean, held]

/-- A file that the disk gives can be read. -/
theorem run_readContent_of_read {content : Content} (held : world.disk.read path = .ok content) :
    ((readContent path).run world).1 = .ok content :=
  congrArg Prod.fst (run_readContent held)

/-- A text that is read is what the disk holds at the path. A file that is no text fails to be read
as one, so its content is a text. -/
theorem run_readText_ok {text : Text} (read : ((readText path).run world).1 = .ok text) :
    world.disk.read path = .ok (.text text) := by
  obtain ⟨content, middle, held, -, rest⟩ :=
    (asks_readContent path).run_bind_ok rfl (Prod.ext read rfl)
  cases content with
  | text found =>
    rw [← Except.ok.inj (congrArg Prod.fst rest)]
    exact run_readContent_ok held
  | binary bytes fault => simp at rest

/-- What is looked at is what the disk shows at the tidy path. -/
theorem run_look_ok {node : Option Node} (looked : ((look path).run world).1 = .ok node) :
    world.disk.look (Path.tidy path) = .ok node := run_ofExcept_ok looked

/-- Whether a directory is at a path is what the disk says of the tidy path. By cases on what
looking for the path finds. -/
theorem run_isDirectory_ok {answer : Bool}
    (asked : ((isDirectory path).run world).1 = .ok answer) :
    answer = world.disk.isDirectory (Path.tidy path) := by
  obtain ⟨node, middle, looked, -, rest⟩ :=
    (asks_look path).run_bind_ok rfl (Prod.ext asked rfl)
  have same := congrArg Prod.fst rest
  have found := run_look_ok looked
  unfold Disk.look at found
  unfold Disk.isDirectory
  split at found
  · rename_i place there there'
    obtain rfl := Except.ok.inj found
    rw [there']
    cases there <;> exact (Except.ok.inj same).symm
  · simp at found
  · rename_i failed
    obtain rfl := Except.ok.inj found
    rw [failed]
    exact (Except.ok.inj same).symm

/-- A path is normalized as the disk says. -/
theorem run_normalize_ok {normal : Text} (asked : ((normalize path).run world).1 = .ok normal) :
    world.disk.normalize path = .ok normal := run_ofExcept_ok asked

/-- A path that the disk can normalize is normalized, and the world stays as it is. -/
theorem run_normalize {normal : Text} (normalized : world.disk.normalize path = .ok normal) :
    (normalize path).run world = (.ok normal, world) := by
  simp [normalize, normalized]

/-- What writing a text does to the disk. -/
theorem run_writeText_ok {text : Text} {value : Unit}
    (run : (writeText path text).run world = (.ok value, after)) :
    world.disk.write path (.text text) = .ok after.disk := by
  rw [writeText, run_world_bind] at run
  split at run
  · simp at run
  · obtain ⟨done, middle, -, -, rest⟩ := (asks_checkPath path).run_bind_ok rfl run
    split at rest
    · rename_i written
      obtain ⟨-, rfl⟩ := Prod.mk.inj rest
      exact written
    · simp at rest

/-- What removing a directory does to the disk. -/
theorem run_removeDirectory_ok {value : Unit}
    (run : (removeDirectory path).run world = (.ok value, after)) :
    world.disk.removeDirectory path = .ok after.disk := by
  obtain ⟨done, middle, -, disk, rest⟩ := (asks_checkPath path).run_bind_ok rfl run
  rw [run_world_bind] at rest
  rw [← disk]
  split at rest
  · rename_i removed
    obtain ⟨-, rfl⟩ := Prod.mk.inj rest
    exact removed
  · simp at rest

/-- What a disk that is set means for the world. -/
theorem run_setDisk_ok {disk : Disk} {failure : Option Failure} {value : Unit}
    (run : (setDisk disk failure).run world = (.ok value, after)) :
    failure = none ∧ after.disk = disk := by
  cases failure with
  | some failure => simp at run
  | none =>
    obtain ⟨-, rfl⟩ := Prod.mk.inj run
    exact ⟨rfl, rfl⟩

/-- An operation that may stop half-way has come to its end if the action that does it has. -/
theorem run_operation_ok {ε : Type} {wrap : ε → Failure} (operate : Disk → Disk × Option ε)
    {value : Unit}
    (run : (Action.world >>= fun world =>
      setDisk (operate world.disk).1 ((operate world.disk).2.map wrap)).run world =
        (.ok value, after)) :
    operate world.disk = (after.disk, none) := by
  rw [run_world_bind] at run
  obtain ⟨noError, set⟩ := run_setDisk_ok run
  rw [set]
  exact Prod.ext rfl (Option.map_eq_none_iff.mp noError)

/-- What making directories does to the disk. -/
theorem run_makeDirectories_ok {value : Unit}
    (run : (makeDirectories path).run world = (.ok value, after)) :
    world.disk.makeDirectories path = (after.disk, none) := by
  obtain ⟨done, middle, -, disk, rest⟩ := (asks_checkPath path).run_bind_ok rfl run
  rw [← disk]
  exact run_operation_ok (·.makeDirectories path) rest

/-- What moving does to the disk. -/
theorem run_move_ok {old new : Text} {value : Unit}
    (run : (move old new).run world = (.ok value, after)) :
    world.disk.move old new = (after.disk, none) := by
  obtain ⟨done, first, -, firstDisk, rest⟩ := (asks_checkPath old).run_bind_ok rfl run
  obtain ⟨done, middle, -, disk, rest⟩ := (asks_checkPath new).run_bind_ok firstDisk rest
  rw [← disk]
  exact run_operation_ok (·.move old new) rest

end Changing

end Action

end Relocate
