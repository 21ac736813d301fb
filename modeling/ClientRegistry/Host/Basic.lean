import ClientRegistry.FileTree.Lookup
import ClientRegistry.Shell.Signals
import ClientRegistry.Work

/-!
# Hosts

A host is what a project is worked on with: the directory that relative paths start from, the
programs that can be run, and a supply of names that nobody uses yet. A program may do anything to
the file tree.
-/

set_option autoImplicit false

namespace ClientRegistry

open Shell (ExitStatus)

structure Invocation where
  program : String
  args : List String
  dir : Path
  deriving DecidableEq, Repr

structure Completed where
  tree : FileTree
  status : ExitStatus
  output : ByteArray
  errors : ByteArray

structure Host where
  dir : Location
  /-- Runs a program until it ends, if it can be started. -/
  start : Invocation → FileTree → Except FileFailure Completed
  /-- The token in the name of a temporary file, by the attempts that are left. -/
  token : Nat → String
  /-- Why the content of a temporary file just made cannot be stored; none where it can. -/
  storeFailure? : FileTree → Path → Option FileFailure := fun _ _ => none

namespace Host

def run (h : Host) (i : Invocation) : Work FileFailure Completed where
  run t :=
    match h.start i t with
    | .ok done => ⟨done.tree, [], .ok done⟩
    | .error e => ⟨t, [], .error e⟩

def absolute (h : Host) (p : Path) : Path := if p.isAbsolute then p else h.dir.toPath.join p

end Host

end ClientRegistry
