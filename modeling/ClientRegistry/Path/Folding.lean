import ClientRegistry.Path.Basic

/-!
# Folding `.` and `..`

Folding removes `.` and cancels each `..` against the name before it, without looking at the
file tree. What it keeps is the place a path denotes: following the components from any directory,
where `..` goes to the parent and stays at the root.
-/

set_option autoImplicit false

namespace ClientRegistry

/-- A place in the file tree: the names from the root down. -/
abbrev Location := List String

def Component.follow (dir : Location) : Component → Location
  | .root => []
  | .current => dir
  | .parent => dir.dropLast
  | .name n => dir ++ [n]

/-- Where a path leads from a directory, no link being followed. -/
def Path.locate (dir : Location) (p : Path) : Location := p.components.foldl Component.follow dir

/-- One step of folding: the components folded so far, and the next one. -/
def Component.foldStep (folded : List Component) : Component → List Component
  | .current => folded
  | .root => [.root]
  | .name n => folded ++ [.name n]
  | .parent =>
    match folded.getLast? with
    | some (.name _) => folded.dropLast
    | some .root => folded
    | _ => folded ++ [.parent]

/-- The components with `.` removed and every `..` that follows a name cancelled with it; at the
root `..` leads nowhere. -/
def Component.fold (cs : List Component) : List Component := cs.foldl foldStep []

def Path.folded (p : Path) : List Component := Component.fold p.components

def Location.toPath (loc : Location) : Path := ⟨"/" ++ "/".intercalate loc⟩

@[simp] theorem Component.fold_nil : Component.fold [] = [] := rfl

end ClientRegistry
