import ClientRegistry.FileTree.Edit

/-!
# Writing files

A file is written together with the directories that it needs. A file that must only be made where
nothing is yet is skipped where something stands.
-/

set_option autoImplicit false

namespace ClientRegistry

inductive Overwrite where
  | always
  | ifMissing
  deriving DecidableEq, Repr

inductive WriteResult where
  | written
  | skipped
  deriving DecidableEq, Repr

inductive WriteError where
  | parent (dir : Path) (cause : FileFailure)
  | file (path : Path) (cause : FileFailure)
  deriving DecidableEq, Repr

namespace WriteError

def messages : WriteError → List String
  | parent dir cause => ["Failed to create " ++ dir.text, cause.message]
  | file path cause => ["Failed to write " ++ path.text, cause.message]

end WriteError

namespace FileTree

/-- Makes the directories that a file needs. -/
def makeParents (t : FileTree) (dir : Location) (p : Path) : FileTree × Except WriteError Unit :=
  match p.parent? with
  | none => (t, .ok ())
  | some up =>
    match t.makeDirectories dir up with
    | (made, .ok ()) => (made, .ok ())
    | (made, .error cause) => (made, .error (.parent up cause))

def writeWithParents (t : FileTree) (dir : Location) (p : Path) (text : String) :
    FileTree × Except WriteError WriteResult :=
  match t.makeParents dir p with
  | (made, .error e) => (made, .error e)
  | (made, .ok ()) =>
    match made.writeContent dir p text.toUTF8 with
    | .ok done => (done, .ok .written)
    | .error cause => (made, .error (.file p cause))

def write (t : FileTree) (dir : Location) (p : Path) (rule : Overwrite) (text : String) :
    FileTree × Except WriteError WriteResult :=
  if rule = .ifMissing && t.pathExists dir p then (t, .ok .skipped) else t.writeWithParents dir p text

end FileTree

end ClientRegistry
