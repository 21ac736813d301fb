import ClientRegistry.Path.Basic

/-!
# Changes

What a file watcher reports, reduced to the kinds of change that matter.
-/

set_option autoImplicit false

namespace ClientRegistry.Watch

inductive ChangeKind where
  | created
  | modified
  | removed
  | other
  deriving DecidableEq, Repr

namespace ChangeKind

def name : ChangeKind → String
  | created => "Created"
  | modified => "Modified"
  | removed => "Removed"
  | other => "Other"

/-- The kind of change for the dotted name under which the system reports it. A change of a
file's metadata alone is none that matters. -/
def ofNotice (notice : String) : ChangeKind :=
  match notice.toList.splitOn '.' |>.map String.ofList with
  | "create" :: _ => created
  | "modify" :: "metadata" :: _ => other
  | "modify" :: _ => modified
  | "remove" :: _ => removed
  | _ => other

end ChangeKind

structure Change where
  kind : ChangeKind
  path : Path
  deriving DecidableEq, Repr

/-- A notice about several paths is one change for each. -/
def changesOf (notice : String) (paths : List Path) : List Change :=
  paths.map fun p => ⟨ChangeKind.ofNotice notice, p⟩

end ClientRegistry.Watch
