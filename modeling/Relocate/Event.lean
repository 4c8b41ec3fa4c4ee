import Relocate.Failure

/-!
# Events

What happens during an action is recorded as events, in order. Each event has a level, the part of
the program that it comes from, and a wording.
-/
namespace Relocate

/-- How much attention an event deserves. -/
inductive Level where
  | debug
  | info
  | warning
deriving DecidableEq, Repr

def Level.word : Level → String
  | .debug => "DEBUG"
  | .info => "INFO"
  | .warning => "WARNING"

def Level.rank : Level → Nat
  | .debug => 0
  | .info => 1
  | .warning => 2

/-- Something worth recording. -/
inductive Event where
  | sourceRoots (roots : List Text)
  | noSourceDirectories (project : Text)
  | missingRoot (root : Text)
  | skippedSource (path : Text) (error : DeclarationError)
  | skippedBytes (path : Text) (fault : Utf8.Fault)
  | declaredTwice (module earlier later : Text)
  | graphBuilt (modules : Nat)
  | renamingReferences (module path : Text)
  | planned (old new : Text) (dependents : Nat)
  | moving (old new : Text)
  | updating (path : Text)
  | removing (directory : Text)
  | undeclared (path : Text)
  | notText (path : Text)
deriving DecidableEq

namespace Event

def level : Event → Level
  | .moving .. | .updating .. => .info
  | .declaredTwice .. | .undeclared .. | .notText .. => .warning
  | _ => .debug

/-- The part of the program that an event comes from. -/
def origin : Event → String
  | .sourceRoots .. => "nsmover.cli"
  | .noSourceDirectories .. => "nsmover.roots"
  | .missingRoot .. | .skippedSource .. | .skippedBytes .. | .declaredTwice .. | .graphBuilt .. =>
    "nsmover.graph"
  | .renamingReferences .. => "nsmover.rewriter"
  | .planned .. | .moving .. | .updating .. | .removing .. | .undeclared .. | .notText .. =>
    "nsmover.mover"

def message : Event → String
  | .sourceRoots roots => "Source roots: " ++ String.ofList (Text.join [',', ' '] roots)
  | .noSourceDirectories project =>
    "No conventional source dirs under " ++ String.ofList project ++ ", using it as the root"
  | .missingRoot root => "Skipping missing source root " ++ String.ofList root
  | .skippedSource path error => "Skipping " ++ String.ofList path ++ ": " ++ error.message
  | .skippedBytes path fault => "Skipping " ++ String.ofList path ++ ": " ++ fault.message
  | .declaredTwice module earlier later =>
    "Module " ++ String.ofList module ++ " is declared by both " ++ String.ofList earlier
      ++ " and " ++ String.ofList later
  | .graphBuilt modules => "Built dependency graph of " ++ toString modules ++ " modules"
  | .renamingReferences module path =>
    "Rewriting references to " ++ String.ofList module ++ " in " ++ String.ofList path
  | .planned old new dependents =>
    "Renaming " ++ String.ofList old ++ " to " ++ String.ofList new ++ " touches "
      ++ toString dependents ++ " dependent(s)"
  | .moving old new => "Moving " ++ String.ofList old ++ " to " ++ String.ofList new
  | .updating path => "Updating " ++ String.ofList path
  | .removing directory => "Removing empty directory " ++ String.ofList directory
  | .undeclared path => String.ofList path ++ " has no ns declaration, moving it as a plain file"
  | .notText path => String.ofList path ++ " is not valid UTF-8, moving it as a plain file"

/-- The event as a line of a log. -/
def line (event : Event) : String :=
  event.level.word ++ " " ++ event.origin ++ ": " ++ event.message

end Event

end Relocate
