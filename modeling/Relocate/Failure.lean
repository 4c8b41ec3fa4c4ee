import Relocate.Disk.Move
import Relocate.Declaration.Parser
import Relocate.Resolution
import Relocate.Text.Utf8

/-!
# Failures

Everything that can stop an action, by its cause. The wording is `Failure.message`.
-/
namespace Relocate

/-- Why the arguments of a rename are refused. -/
inductive ArgumentError where
  | blank
  | missing (path : Text)
deriving DecidableEq, Repr

def ArgumentError.message : ArgumentError → String
  | .blank => "Paths must not be blank"
  | .missing path => String.ofList path ++ " is neither a file nor a directory"

/-- What stops an action. -/
inductive Failure where
  | argument (error : ArgumentError)
  | resolution (error : ResolutionError)
  | declaration (error : DeclarationError)
  | undecodable (fault : Utf8.Fault)
  | move (error : MoveError)
  | os (error : OsError)
  /-- The file refuses to be written. -/
  | writeRefused (path : Text)
  /-- A path holds a null character, so that it cannot be handed to the disk. -/
  | nullInPath
deriving DecidableEq

def Failure.message : Failure → String
  | .argument error => error.message
  | .resolution error => error.message
  | .declaration error => error.message
  | .undecodable fault => fault.message
  | .move error => error.message
  | .os error => error.message
  | .writeRefused path => String.ofList path
  | .nullInPath => "embedded null byte"

end Relocate
