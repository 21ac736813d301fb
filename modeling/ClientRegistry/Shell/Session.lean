import ClientRegistry.FileTree.Edit
import ClientRegistry.Shell.Script
import ClientRegistry.Shell.Signals

/-!
# Sessions

A session is a shell at work on a file tree: its directory, its variables, its arguments and its
files. What is written to a file that is no place in the tree is kept in a buffer.
-/

set_option autoImplicit false

namespace ClientRegistry.Shell

inductive Channel where
  | buffer (index : Nat)
  | place (loc : Location)
  | closed
  deriving DecidableEq, Repr

structure Session where
  tree : FileTree
  buffers : Array ByteArray
  dir : Location
  bindings : List (String × String)
  /-- The variables that programs get to see. -/
  exported : List String
  functions : List (String × Command)
  /-- What the session is called in its messages. -/
  name : String
  args : List String
  channels : List (Nat × Channel)
  /-- The status of the last command. -/
  status : Nat
  line : Nat
  /-- Whether the session ends when a command fails. -/
  strict : Bool
  /-- Whether the session ends when a variable without a value is used. -/
  wary : Bool
  /-- The values that variables have outside of the functions that run, the latest first. -/
  shadowed : List (String × Option String)
  /-- What is run on a signal, by its number; the number zero stands for the end of the session. -/
  traps : List (Nat × String)

/-- Why a command does not go on to the next one. -/
inductive Leave where
  | quit (status : Nat)
  | killed (signal : Nat)
  /-- A program has taken the place of the session, and has ended. -/
  | replaced (e : ExitStatus)
  /-- Out of a number of loops, of which the last one may go on. -/
  | loops (levels : Nat) (goOn : Bool)
  | back (status : Nat)
  deriving DecidableEq, Repr

abbrev Run (α : Type) := ExceptT Leave (StateM Session) α

namespace Session

/-- The number under which a session knows itself. -/
def ownNumber : String := "4000"

/-- A session whose input, output and error output are the first three buffers. -/
def start (t : FileTree) (dir : Location) (name : String) (args : List String) : Session where
  tree := t
  buffers := #[ByteArray.empty, ByteArray.empty, ByteArray.empty]
  dir := dir
  bindings := [("HOME", "/root"), ("PWD", dir.toPath.text), ("IFS", " \t\n"), ("PATH", "/usr/bin:/bin")]
  exported := ["HOME", "PATH", "PWD"]
  functions := []
  name := name
  args := args
  channels := [(0, .buffer 0), (1, .buffer 1), (2, .buffer 2)]
  status := 0
  line := 1
  strict := false
  wary := false
  shadowed := []
  traps := []

def channel (s : Session) (descriptor : Nat) : Channel := (s.channels.lookup descriptor).getD .closed

def setChannel (s : Session) (descriptor : Nat) (c : Channel) : Session :=
  { s with channels := (descriptor, c) :: s.channels.filter (·.1 != descriptor) }

def lookUp? (s : Session) (name : String) : Option String := s.bindings.lookup name

def setVariable (s : Session) (name value : String) : Session :=
  { s with bindings := (name, value) :: s.bindings.filter (·.1 != name) }

def unsetVariable (s : Session) (name : String) : Session :=
  { s with bindings := s.bindings.filter (·.1 != name) }

/-- Makes a variable local to the function that runs. -/
def shadow (s : Session) (name : String) : Session :=
  { s with shadowed := (name, s.lookUp? name) :: s.shadowed }

/-- Gives variables back the values they had when only so many were shadowed. -/
def unshadow (s : Session) (count : Nat) : Session :=
  (s.shadowed.take (s.shadowed.length - count)).foldl (fun s (name, value) =>
    match value with
    | some v => s.setVariable name v
    | none => s.unsetVariable name) { s with shadowed := s.shadowed.drop (s.shadowed.length - count) }

def buffer (s : Session) (index : Nat) : ByteArray := s.buffers[index]?.getD ByteArray.empty

def addBuffer (s : Session) (content : ByteArray) : Session × Nat :=
  ({ s with buffers := s.buffers.push content }, s.buffers.size)

def write (s : Session) (descriptor : Nat) (bytes : ByteArray) : Session :=
  match s.channel descriptor with
  | .buffer i => { s with buffers := s.buffers.modify i (· ++ bytes) }
  | .place loc =>
    match s.tree.node? loc with
    | some (.file content) => { s with tree := s.tree.put loc (.file (content ++ bytes)) }
    | _ => s
  | .closed => s

end Session

def writeBytes (descriptor : Nat) (bytes : ByteArray) : Run Unit := modify (·.write descriptor bytes)

def writeText (descriptor : Nat) (text : String) : Run Unit := writeBytes descriptor text.toUTF8

def takeInput : Run ByteArray := do
  let s ← get
  match s.channel 0 with
  | .buffer i =>
    set { s with buffers := s.buffers.set! i ByteArray.empty }
    pure (s.buffer i)
  | _ => pure ByteArray.empty

def setStatus (n : Nat) : Run Unit := modify fun s => { s with status := n }

/-- Takes over how a program has ended. -/
def adoptStatus (e : ExitStatus) : Run Nat := do
  match e with
  | .code n => pure n
  | .signal n =>
    if let some notice := signalNotice? n then writeText 2 (notice ++ "\n")
    pure (128 + n)

def complain (text : String) : Run Unit := do
  let s ← get
  writeText 2 (s.name ++ ": " ++ toString s.line ++ ": " ++ text ++ "\n")

def changeTree (change : FileTree → Location → Except FileFailure FileTree) : Run (Except FileFailure Unit) := do
  let s ← get
  match change s.tree s.dir with
  | .ok t =>
    set { s with tree := t }
    pure (.ok ())
  | .error e => pure (.error e)

end ClientRegistry.Shell
