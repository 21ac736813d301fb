import ClientRegistry.Host.Basic
import ClientRegistry.Shell.Evaluation

/-!
# The host of a shell

The programs of this host are the shell and the utilities that its scripts run.
-/

set_option autoImplicit false

namespace ClientRegistry.Host

open Shell

/-- How many steps deep a program may go. -/
def maxDepth : Nat := 100000

/-- The programs that can be run by their names, where no shell reads the command. -/
def isProgram (name : String) : Bool := (utility? name).isSome || ["sh", "env"].contains name

def hasNul (text : String) : Bool := text.toList.contains (Char.ofNat 0)

/-- Whether a program is there to be run. A file of the project is there, but nothing has made it
executable. -/
def requireProgram (t : FileTree) (dir : Location) (name : String) : Except FileFailure Unit :=
  if isProgram (systemProgram name) then .ok ()
  else if name.toList.contains '/' then
    match t.resolve dir ⟨name⟩ with
    | .ok _ => .error .permissionDenied
    | .error e => .error e
  else .error .notFound

def runProgram (dir : Location) (i : Invocation) (t : FileTree) : Except FileFailure Completed := do
  if ([i.program, i.dir.text] ++ i.args).any hasNul then .error .nulInCommand
  let loc ← t.resolve dir i.dir
  t.requireDirectory loc
  requireProgram t loc i.program
  let run : Run ExitStatus := Shell.runProgram maxDepth i.program i.args
  let (result, s) := (tryCatch run fun _ => pure (.code 2)).run (Session.start t loc i.program [])
  .ok ⟨s.tree, result.toOption.getD (.code 2), s.buffer 1, s.buffer 2⟩

def surroundings : FileTree :=
  [(["dev"], .directory), (["dev", "null"], .sink), (["proc"], .systemDirectory), (["tmp"], .directory)].foldl
    (fun t (loc, node) => t.put loc node) FileTree.empty

def sixDigits (n : Nat) : String :=
  let digits := toString (n % 1000000)
  String.ofList (List.replicate (6 - digits.length) '0') ++ digits

/-- The host of a shell in a directory. -/
def ofShell (dir : Location) : Host where
  dir := dir
  start := runProgram dir
  token := sixDigits

end ClientRegistry.Host
