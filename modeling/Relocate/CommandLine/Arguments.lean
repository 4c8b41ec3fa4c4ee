import Relocate.Action
import Relocate.Text.Quoted

/-!
# Arguments of the command line

A command line has options for the program, then a command, then options and arguments of the
command in any order. A value stands in the same word as its option, behind an equals sign, or in
the next word. Two hyphens on their own end the options.

Faults are found in a fixed order: those of the words themselves first, from left to right; then
the values of the options given, in the order in which the options first appear; then the arguments;
then the source roots taken from the environment; then arguments that are too many.
-/
namespace Relocate

/-- The commands. -/
inductive Command where
  | rename
  | dependents
  | moduleName
deriving DecidableEq, Repr

/-- What an argument has to be. -/
inductive ParameterKind where
  /-- A path at which something is. -/
  | present
  | path
  | word
deriving DecidableEq, Repr

/-- What a command takes an argument for. -/
structure Parameter where
  name : Text
  kind : ParameterKind
deriving DecidableEq, Repr

namespace Command

def word : Command → Text
  | .rename => "rename".toList
  | .dependents => "dependents".toList
  | .moduleName => "module-name".toList

/-- The arguments that a command takes. -/
def parameters : Command → List Parameter
  | .rename => [⟨"OLD".toList, .present⟩, ⟨"NEW".toList, .path⟩]
  | .dependents => [⟨"TARGET".toList, .word⟩]
  | .moduleName => [⟨"PATH".toList, .path⟩]

def ofWord? (name : Text) : Option Command :=
  [Command.rename, .dependents, .moduleName].find? fun command => command.word = name

/-- The words that call a command. -/
def call (command : Command) : Text := "nsmover ".toList ++ command.word

/-- How a command is used. -/
def synopsis (command : Command) : Text :=
  command.call ++ " [OPTIONS] ".toList ++ Text.join [' '] (command.parameters.map Parameter.name)

end Command

/-- How the program is used: in general, or one command of it. -/
def synopsis : Option Command → Text
  | none => "nsmover [OPTIONS] COMMAND [ARGS]...".toList
  | some command => command.synopsis

/-- The words that call the program or one command of it. -/
def calledAs : Option Command → Text
  | none => "nsmover".toList
  | some command => command.call

/-- What is wrong with a command line. -/
inductive UsageError where
  | valueMissing (option : Text)
  | valueGiven (option : Text)
  | noSuchOption (option : Text)
  | missingCommand
  | noSuchCommand (name : Text)
  | missingArgument (parameter : Text)
  | extraArguments (arguments : List Text)
  | noSuchPath (parameter path : Text)
  | rootIsFile (path : Text)
  | noProject (path : Text)
deriving DecidableEq, Repr

namespace UsageError

def message : UsageError → Text
  | .valueMissing option =>
    "Option ".toList ++ Text.quoted option ++ " requires an argument.".toList
  | .valueGiven option =>
    "Option ".toList ++ Text.quoted option ++ " does not take a value.".toList
  | .noSuchOption option => "No such option ".toList ++ Text.quoted option ++ ".".toList
  | .missingCommand => "Missing command.".toList
  | .noSuchCommand name => "No such command ".toList ++ Text.quoted name ++ ".".toList
  | .missingArgument parameter => "Missing argument ".toList ++ Text.quoted parameter ++ ".".toList
  | .extraArguments arguments =>
    "Got unexpected extra argument".toList ++ (if arguments.length = 1 then [] else ['s'])
      ++ " (".toList ++ Text.join [' '] arguments ++ ")".toList
  | .noSuchPath parameter path =>
    "Invalid value for ".toList ++ Text.quoted parameter ++ ": Path ".toList ++ Text.quoted path
      ++ " does not exist.".toList
  | .rootIsFile path =>
    "Invalid value for '--source-root': Directory ".toList ++ Text.quoted path
      ++ " is a file.".toList
  | .noProject path =>
    "Project root ".toList ++ path ++ " does not exist or is not a directory".toList

/-- A fault in the value of an option is reported without saying how the command is used. -/
def showsUsage : UsageError → Bool
  | .valueMissing _ | .valueGiven _ => false
  | _ => true

end UsageError

/-- A word that holds options: at least one character behind a hyphen. -/
def isOptionWord (word : Text) : Bool :=
  match word with
  | '-' :: _ :: _ => true
  | _ => false

/-- An option word cut at its first equals sign. -/
def splitOption (word : Text) : Text × Option Text :=
  match word.span (· ≠ '=') with
  | (name, []) => (name, none)
  | (name, _ :: value) => (name, some value)

/-- What is wrong with an option word that names no option: the whole name if it is a long one,
otherwise its first letter that is no option. -/
def unknownOption (known : List Char) (word : Text) : Option UsageError :=
  match word with
  | '-' :: '-' :: _ => some (.noSuchOption (splitOption word).1)
  | _ =>
    ((word.drop 1).find? fun letter => !known.contains letter).map fun letter =>
      .noSuchOption ['-', letter]

/-- The options of the program: how often it was asked to tell more, and whether to show its version
or how it is used. -/
structure ProgramOptions where
  verbosity : Nat
  version : Bool
  help : Bool
deriving DecidableEq, Repr

namespace ProgramOptions

def empty : ProgramOptions := ⟨0, false, false⟩

/-- A long option that takes no value. -/
def addFlag? (options : ProgramOptions) (name : Text) : Option ProgramOptions :=
  if name = "--verbose".toList then some { options with verbosity := options.verbosity + 1 }
  else if name = "--version".toList then some { options with version := true }
  else if name = "--help".toList then some { options with help := true }
  else none

/-- Takes the options of the program off the front of the words. -/
def parse (options : ProgramOptions) : List Text → Except UsageError (ProgramOptions × List Text)
  | [] => .ok (options, [])
  | word :: words =>
    if word = "--".toList then .ok (options, words)
    else if !isOptionWord word then .ok (options, word :: words)
    else
      let (name, value) := splitOption word
      match options.addFlag? name, value with
      | some options, none => parse options words
      | some _, some _ => .error (.valueGiven name)
      | none, _ =>
        match unknownOption ['v'] word with
        | some error => .error error
        | none => parse { options with verbosity := options.verbosity + (word.length - 1) } words

end ProgramOptions

/-- The options of a command that take a value. -/
inductive ValueOption where
  | projectRoot
  | sourceRoot
  | extension
deriving DecidableEq, Repr

namespace ValueOption

def word : ValueOption → Text
  | .projectRoot => "--project-root".toList
  | .sourceRoot => "--source-root".toList
  | .extension => "--extension".toList

def ofWord? (name : Text) : Option ValueOption :=
  [ValueOption.projectRoot, .sourceRoot, .extension].find? fun option => option.word = name

end ValueOption

/-- The options and arguments of a command, as they are given. -/
structure CommandOptions where
  values : List (ValueOption × Text)
  help : Bool
  arguments : List Text
deriving DecidableEq, Repr

namespace CommandOptions

def empty : CommandOptions := ⟨[], false, []⟩

/-- The values given for an option, in order. -/
def valuesOf (options : CommandOptions) (option : ValueOption) : List Text :=
  options.values.filterMap fun value => if value.1 = option then some value.2 else none

/-- The project root: the last one counts. -/
def projectRoot (options : CommandOptions) : Option Text := (options.valuesOf .projectRoot).getLast?

def sourceRoots (options : CommandOptions) : List Text := options.valuesOf .sourceRoot

def extensions (options : CommandOptions) : List Text := options.valuesOf .extension

/-- The options with the value of a further one. -/
def addValue (options : CommandOptions) (option : ValueOption) (value : Text) : CommandOptions :=
  { options with values := options.values ++ [(option, value)] }

/-- Reads the words behind a command. -/
def parse (options : CommandOptions) : List Text → Except UsageError CommandOptions
  | [] => .ok options
  | word :: words =>
    if word = "--".toList then .ok { options with arguments := options.arguments ++ words }
    else if !isOptionWord word then
      parse { options with arguments := options.arguments ++ [word] } words
    else
      let (name, value) := splitOption word
      match ValueOption.ofWord? name, value with
      | some option, some value => parse (options.addValue option value) words
      | some option, none =>
        match words with
        | [] => .error (.valueMissing name)
        | value :: words => parse (options.addValue option value) words
      | none, value =>
        if name = "--help".toList then
          match value with
          | none => parse { options with help := true } words
          | some _ => .error (.valueGiven name)
        else
          match unknownOption [] word with
          | some error => .error error
          | none => parse options words

end CommandOptions

/-- The values of a variable of the environment, with colons between them; an empty variable counts
as unset. -/
def environmentValues : Option Text → List Text
  | none => []
  | some [] => []
  | some value => Text.split ':' value

/-- A value that is looked at before a command runs. -/
inductive Check where
  | path (value : Text)
  /-- The value must not be a file. -/
  | sourceRoot (value : Text)
  /-- Something has to be at the value. -/
  | present (parameter value : Text)
  /-- There is no value. -/
  | missing (parameter : Text)
deriving DecidableEq, Repr

/-- The values of the options to look at, option by option as they first appear. -/
def CommandOptions.checks (options : CommandOptions) : List Check :=
  (options.values.map Prod.fst).eraseDups.flatMap fun
    | .projectRoot => options.projectRoot.toList.map Check.path
    | .sourceRoot => options.sourceRoots.map Check.sourceRoot
    | .extension => []

/-- The arguments to look at, in the order of the parameters. -/
def argumentChecks : List Parameter → List Text → List Check
  | [], _ => []
  | parameter :: parameters, [] => .missing parameter.name :: argumentChecks parameters []
  | parameter :: parameters, argument :: arguments =>
    let others := argumentChecks parameters arguments
    match parameter.kind with
    | .present => .present parameter.name argument :: others
    | .path => .path argument :: others
    | .word => others

/-- What is wrong with a value, if anything. -/
def Check.fault? (check : Check) : Action (Option UsageError) := do
  let world ← Action.world
  match check with
  | .path value =>
    Action.checkPath value
    pure none
  | .sourceRoot value =>
    Action.checkPath value
    pure (if world.disk.isFile value then some (.rootIsFile value) else none)
  | .present parameter value =>
    Action.checkPath value
    pure (if world.disk.pathExists value then none else some (.noSuchPath parameter value))
  | .missing parameter => pure (some (.missingArgument parameter))

/-- What is wrong with the first value that something is wrong with. -/
def firstFault? : List Check → Action (Option UsageError)
  | [] => pure none
  | check :: checks => do
    match ← check.fault? with
    | some error => pure (some error)
    | none => firstFault? checks

/-- Checks the options and arguments of a command and gives the source roots to use: those given,
or those of the environment if none are. -/
def checkArguments (environment : Option Text) (command : Command) (options : CommandOptions) :
    Action (Except UsageError (List Text)) := do
  let given := options.sourceRoots
  let others := if given.isEmpty then environmentValues environment else []
  let checks := options.checks ++ argumentChecks command.parameters options.arguments
    ++ others.map Check.sourceRoot
  match ← firstFault? checks, options.arguments.drop command.parameters.length with
  | some error, _ => pure (.error error)
  | none, [] => pure (.ok (given ++ others))
  | none, extra => pure (.error (.extraArguments extra))

end Relocate
