import ClientRegistry.Path.Basic
import ClientRegistry.Service.Declaration
import ClientRegistry.Text.Case

/-!
# Services

A service has a base name; its key in the registry is the base name with a lower-case first
letter, and its constant is the base name with the suffix.
-/

set_option autoImplicit false

namespace ClientRegistry

structure Service where
  baseName : String
  /-- The key under which the registry holds the service's client. -/
  instanceName : String
  /-- The constant that describes the service. -/
  identifier : String
  /-- The module that exports the constant. -/
  importPath : String
  deriving DecidableEq, Repr

namespace Service

def ofBaseName (baseName importPath : String) : Service where
  baseName := baseName
  instanceName := Text.lowerFirst baseName
  identifier := baseName ++ String.ofList suffix
  importPath := importPath

inductive SkipReason where
  | unreadable (cause : String)
  | outsideOutDir
  | noServiceExport (mismatch : Mismatch)
  | duplicateInstance (instanceName : String) (first : Path)
  deriving DecidableEq, Repr

def SkipReason.message : SkipReason → String
  | unreadable cause => "could not be read: " ++ cause
  | outsideOutDir => "is outside the output directory"
  | noServiceExport m => "has no service export (" ++ m.message ++ ")"
  | duplicateInstance key first => "defines '" ++ key ++ "' which is already provided by " ++ first.text

structure Skipped where
  path : Path
  reason : SkipReason
  deriving DecidableEq, Repr

end Service

end ClientRegistry
