import Relocate.Event

/-!
# Actions

An action works on a world: a disk and the events recorded so far. It either gives a value or fails,
and in both cases leaves a world behind, so that what a failed action has done up to its failure
stays visible.
-/
namespace Relocate

/-- What actions work on. -/
structure World where
  disk : Disk
  /-- Paths that refuse to be written. -/
  locked : List Text
  events : List Event

/-- A computation on a world that may fail. -/
def Action (α : Type) : Type := World → Except Failure α × World

namespace Action

variable {α β : Type}

def run (action : Action α) (world : World) : Except Failure α × World := action world

def pure (value : α) : Action α := fun world => (.ok value, world)

def bind (action : Action α) (next : α → Action β) : Action β := fun world =>
  match action world with
  | (.ok value, world) => next value world
  | (.error failure, world) => (.error failure, world)

instance : Monad Action where
  pure := pure
  bind := bind

/-- A sequence of actions goes on in the world that its first action leaves behind. -/
@[simp] theorem run_bind (action : Action α) (next : α → Action β) (world : World) :
    (action >>= next).run world =
      match action.run world with
      | (.ok value, after) => (next value).run after
      | (.error failure, after) => (.error failure, after) := rfl

/-- A value alone leaves the world as it is. -/
@[simp] theorem run_pure (value : α) (world : World) :
    (Pure.pure value : Action α).run world = (.ok value, world) := rfl

/-- The value of an action by itself is that of the monad. -/
@[simp] theorem pure_eq (value : α) : pure value = (Pure.pure value : Action α) := rfl

def fail (failure : Failure) : Action α := fun world => (.error failure, world)

/-- A failure leaves the world as it is. -/
@[simp] theorem run_fail (failure : Failure) (world : World) :
    (fail failure : Action α).run world = (.error failure, world) := rfl

/-- The world as it is. -/
def world : Action World := fun world => (.ok world, world)

/-- Asking for the world leaves it as it is. -/
@[simp] theorem run_world (world : World) : Action.world.run world = (.ok world, world) := rfl

/-- Records an event. -/
def emit (event : Event) : Action Unit := fun world =>
  (.ok (), { world with events := world.events ++ [event] })

/-- An event is recorded behind the others, and the disk stays. -/
@[simp] theorem run_emit (event : Event) (world : World) :
    (emit event).run world = (.ok (), { world with events := world.events ++ [event] }) := rfl

/-- A value, or the failure that takes its place. -/
def ofExcept {ε : Type} (wrap : ε → Failure) : Except ε α → Action α
  | .ok value => pure value
  | .error error => fail (wrap error)

/-- What is given is a value. -/
@[simp] theorem ofExcept_ok {ε : Type} (wrap : ε → Failure) (value : α) :
    ofExcept wrap (.ok value) = (Pure.pure value : Action α) := rfl

/-- What stands in place of a value is a failure. -/
@[simp] theorem ofExcept_error {ε : Type} (wrap : ε → Failure) (error : ε) :
    ofExcept wrap (.error error) = (fail (wrap error) : Action α) := rfl

/-- Replaces the disk, and then fails if there is a reason to. -/
def setDisk (disk : Disk) (failure : Option Failure) : Action Unit := fun world =>
  match failure with
  | none => (.ok (), { world with disk })
  | some failure => (.error failure, { world with disk })

/-- Without a reason to fail the disk is replaced and nothing else. -/
@[simp] theorem run_setDisk_none (disk : Disk) (world : World) :
    (setDisk disk none).run world = (.ok (), { world with disk }) := rfl

/-- The disk is replaced before the failure. -/
@[simp] theorem run_setDisk_some (disk : Disk) (failure : Failure) (world : World) :
    (setDisk disk (some failure)).run world = (.error failure, { world with disk }) := rfl

/-- Does something for each item in turn. -/
def forEach (items : List α) (action : α → Action Unit) : Action Unit :=
  match items with
  | [] => pure ()
  | item :: items => bind (action item) fun _ => forEach items action

/-- A path to work on may hold any character but the null character. Asking what is at a path does
not need this: at one that holds a null character there is nothing. -/
def checkPath (path : Text) : Action Unit :=
  if Path.holdsNull path then fail .nullInPath else pure ()

/-- What a file holds, which has to be text or not. -/
def readContent (path : Text) : Action Content := do
  checkPath path
  let world ← world
  ofExcept .os (world.disk.read path)

/-- The text of a file. -/
def readText (path : Text) : Action Text := do
  match ← readContent path with
  | .text text => pure text
  | .binary _ fault => fail (.undecodable fault)

/-- Makes a file of a text, or replaces what it holds. -/
def writeText (path : Text) (text : Text) : Action Unit := do
  let world ← world
  if world.locked.contains path then fail (.writeRefused path)
  else
    checkPath path
    match world.disk.write path (.text text) with
    | .ok disk => setDisk disk none
    | .error error => fail (.os error)

/-- What is at the path, if anything. -/
def look (path : Text) : Action (Option Node) := do
  let world ← world
  ofExcept .os (world.disk.look (Path.tidy path))

/-- A file is at the path. -/
def isFile (path : Text) : Action Bool := do
  match ← look path with
  | some (.file _) => pure true
  | _ => pure false

/-- A directory is at the path. -/
def isDirectory (path : Text) : Action Bool := do
  match ← look path with
  | some .directory => pure true
  | _ => pure false

/-- Something is at the path. -/
def pathExists (path : Text) : Action Bool := do
  return (← look path).isSome

/-- The names in a directory, in order. -/
def list (path : Text) : Action (List Text) := do
  checkPath path
  let world ← world
  ofExcept .os (world.disk.list path)

/-- The files below a directory, in the order of listing. -/
def walk (path : Text) : Action (List Text) := do
  checkPath path
  let world ← world
  pure (world.disk.walk path)

/-- Removes an empty directory. -/
def removeDirectory (path : Text) : Action Unit := do
  checkPath path
  let world ← world
  match world.disk.removeDirectory path with
  | .ok disk => setDisk disk none
  | .error error => fail (.os error)

/-- Makes a directory and those above it, as far as they are missing. -/
def makeDirectories (path : Text) : Action Unit := do
  checkPath path
  let world ← world
  let (disk, error) := world.disk.makeDirectories path
  setDisk disk (error.map .os)

/-- Moves a file or directory. -/
def move (old new : Text) : Action Unit := do
  checkPath old
  checkPath new
  let world ← world
  let (disk, error) := world.disk.move old new
  setDisk disk (error.map .move)

/-- The path of the directory that a path starts from. -/
def startOf (path : Text) : Action Text := do
  let world ← world
  ofExcept .os (world.disk.startOf path)

/-- The absolute path of a file with slashes only. -/
def normalize (path : Text) : Action Text := do
  let world ← world
  ofExcept .os (world.disk.normalize path)

/-- The absolute paths of several files with slashes only. -/
def normalizeAll : List Text → Action (List Text)
  | [] => pure []
  | path :: paths => do
    let first ← normalize path
    let others ← normalizeAll paths
    pure (first :: others)

end Action

end Relocate
