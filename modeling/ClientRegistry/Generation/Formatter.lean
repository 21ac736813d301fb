import ClientRegistry.Host.Basic
import ClientRegistry.Text.Blank

/-!
# Formatters

A formatter is a program that brings a file into shape. Its command is split at blanks, without
any quoting, and the file comes last. A formatter that fails does no harm.
-/

set_option autoImplicit false

namespace ClientRegistry

structure Formatter where
  program : String
  args : List String
  deriving DecidableEq, Repr

namespace Formatter

def ofCommand? (command : String) : Option Formatter :=
  match Text.words command with
  | [] => none
  | program :: args => some ⟨program, args⟩

/-- Formats a file, and tells whether that went well. -/
def format {ε : Type} (f : Formatter) (h : Host) (dir file : Path) : Work ε Bool := do
  match ← (h.run ⟨f.program, f.args ++ [file.text], dir⟩).attempt with
  | .ok done => pure done.status.isSuccess
  | .error _ => pure false

end Formatter

end ClientRegistry
