import Relocate.CommandLine.Arguments
import Relocate.Rename.Directory
import Relocate.Text.ControlSequence

/-!
# Running commands

A run of the program gives a report: its exit status and what it writes to the two output channels.
Events are written to the error channel in order, as far as they are important enough, together
with the announcement of a rename and the error that ends the run. All but the events is shown
without the control sequences that a path may hold.

A failure that no command expects ends the run without a report.
-/
namespace Relocate

/-- What a run of the program shows. -/
structure Report where
  status : Nat
  output : Text
  errors : Text
deriving DecidableEq, Repr

/-- The text with a line end behind it. -/
def asLine (text : Text) : Text := text ++ ['\n']

/-- A line that is shown without control sequences. -/
def shown (text : Text) : Text := Text.dropSequences (asLine text)

/-- The least level of events that are shown. -/
def threshold : Nat → Level
  | 0 => .warning
  | 1 => .info
  | _ => .debug

/-- The events that are important enough, a line each. -/
def logText (verbosity : Nat) (events : List Event) : Text :=
  (events.filter fun event => (threshold verbosity).rank ≤ event.level.rank).flatMap fun event =>
    asLine event.line.toList

/-- The line of an error that ends a run. -/
def errorLine (message : Text) : Text := shown ("Error: ".toList ++ message)

namespace UsageError

/-- The report of a wrong command line. -/
def report (error : UsageError) (command : Option Command) : Report :=
  let usage :=
    if error.showsUsage then
      asLine ("Usage: ".toList ++ synopsis command)
        ++ asLine ("Try '".toList ++ calledAs command ++ " --help' for help.".toList) ++ ['\n']
    else []
  ⟨2, [], usage ++ errorLine error.message⟩

end UsageError

/-- The action's outcome as a value: the action itself does not fail. -/
def Action.attempt {α : Type} (action : Action α) : Action (Except Failure α) := fun world =>
  match action world with
  | (outcome, world) => (.ok outcome, world)

/-- The text with line feeds for carriage returns, alone or before a line feed. -/
def unixLines : Text → Text
  | [] => []
  | '\r' :: '\n' :: rest => '\n' :: unixLines rest
  | c :: rest => (if c = '\r' then '\n' else c) :: unixLines rest

/-- The project that the options describe, for a project root that is a directory. -/
def projectOf (options : CommandOptions) (sourceRoots : List Text) :
    Action (Except UsageError Project) := do
  let current ← Action.startOf []
  let root :=
    match options.projectRoot with
    | none | some [] => current
    | some path => Path.tidy path
  if ← Action.isDirectory root then
    let layout : ProjectLayout := {
      directory := Path.tidy (Path.append current root)
      sourceRoots := sourceRoots.map Path.tidy
      extensions := if options.extensions.isEmpty then defaultExtensions else options.extensions
      sourceDirectories := defaultSourceDirectories }
    pure (.ok (layout.project current))
  else pure (.error (.noProject root))

/-- The report of a command that has done its work. -/
def finished (verbosity : Nat) (lines : List Text) : Action Report := do
  let world ← Action.world
  pure ⟨0, lines.flatMap shown, logText verbosity world.events⟩

/-- The report of a command that has failed. -/
def failed (verbosity : Nat) (message : Text) : Action Report := do
  let world ← Action.world
  pure ⟨1, [], logText verbosity world.events ++ errorLine message⟩

/-- The path that a rename leads to: a file keeps its name when it goes into a directory. -/
def renameTarget (old new : Text) : Action Text := do
  let newPath := Path.tidy new
  let inside := Path.tidy (Path.append newPath (Path.baseName (Path.tidy old)))
  if !(← Action.isFile old) then pure newPath
  else if Disk.wantsDirectory new then pure inside
  else if ← Action.isDirectory new then pure inside
  else pure newPath

/-- Renames a file or directory and lists the files written. -/
def runRename (verbosity : Nat) (project : Project) (old new : Text) : Action Report := do
  let roots ← project.roots.list
  Action.emit (.sourceRoots roots)
  let oldPath := Path.tidy old
  let newPath ← renameTarget old new
  let before ← Action.world
  let announcement := shown
    ("Renaming ".toList ++ oldPath ++ " to ".toList ++ newPath
      ++ " and updating dependents…".toList)
  let outcome ← Action.attempt (project.rename (some oldPath) (some newPath))
  let after ← Action.world
  let log := logText verbosity before.events ++ announcement
    ++ logText verbosity (after.events.drop before.events.length)
  match outcome with
  | .ok written => pure ⟨0, written.flatMap shown, log⟩
  | .error failure => pure ⟨1, [], log ++ errorLine failure.message.toList⟩

/-- The module that a target stands for: the one a file declares, or the target itself. -/
def targetModule (target : Text) : Action (Except String Text) := do
  let world ← Action.world
  if world.disk.isFile target then
    match ← Action.readContent target with
    | .binary _ fault => pure (.error fault.message)
    | .text text =>
      match Declaration.parse (unixLines text) with
      | .error error => pure (.error error.message)
      | .ok declaration => pure (.ok declaration.module)
  else pure (.ok target)

/-- Lists the files that depend directly on a module. -/
def runDependents (verbosity : Nat) (project : Project) (target : Text) : Action Report := do
  match ← targetModule target with
  | .error message => failed verbosity (target ++ ": ".toList ++ message.toList)
  | .ok module =>
    let graph ← project.graph
    finished verbosity (graph.dependentsOf module)

/-- Shows the module of a path. -/
def runModuleName (verbosity : Nat) (project : Project) (path : Text) : Action Report := do
  match ← Action.attempt (project.resolve path) with
  | .ok module => finished verbosity [module]
  | .error failure => failed verbosity failure.message.toList

/-- Runs a command on a project. -/
def runCommand (verbosity : Nat) (project : Project) : Command → List Text → Action Report
  | .rename, old :: new :: _ => runRename verbosity project old new
  | .dependents, target :: _ => runDependents verbosity project target
  | .moduleName, path :: _ => runModuleName verbosity project path
  | command, _ => pure ((UsageError.missingCommand).report (some command))

/-- How the program or one command of it is used. -/
def helpReport (command : Option Command) : Report :=
  ⟨0, asLine ("Usage: ".toList ++ synopsis command), []⟩

/-- What the options of the program ask for in place of a command. -/
def ProgramOptions.report? (options : ProgramOptions) : Option Report :=
  if options.version then some ⟨0, asLine "nsmover, version 0.1.0".toList, []⟩
  else if options.help then some (helpReport none)
  else none

/-- The report of a word that is no command. Behind `--` it may look like an option; then the words
from it on are read as options of the program once more. -/
def unknownCommand (name : Text) (words : List Text) : Report :=
  match ProgramOptions.parse .empty (name :: words) with
  | .error error => error.report none
  | .ok (options, _) => options.report?.getD ((UsageError.noSuchCommand name).report none)

/-- Runs a command on the words behind it. -/
def runCommandWords (environment : Option Text) (verbosity : Nat) (command : Command)
    (words : List Text) : Action Report := do
  match CommandOptions.parse .empty words with
  | .error error => pure (error.report (some command))
  | .ok options =>
    if options.help then pure (helpReport (some command))
    else
      match ← checkArguments environment command options with
      | .error error => pure (error.report (some command))
      | .ok sourceRoots =>
        match ← projectOf options sourceRoots with
        | .error error => pure (error.report (some command))
        | .ok project => runCommand verbosity project command options.arguments

/-- Runs the program on the words of a command line and the source roots in the environment. -/
def runWords (environment : Option Text) (words : List Text) : Action Report :=
  match ProgramOptions.parse .empty words with
  | .error error => pure (error.report none)
  | .ok (options, rest) =>
    match options.report?, rest with
    | some report, _ => pure report
    | none, [] =>
      pure (if words.isEmpty then helpReport none else UsageError.missingCommand.report none)
    | none, name :: rest =>
      match Command.ofWord? name with
      | none => pure (unknownCommand name rest)
      | some command => runCommandWords environment options.verbosity command rest

end Relocate
