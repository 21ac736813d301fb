import ClientRegistry.FileTree.Lookup

/-!
# Listing files

The regular files at or below a place, directory by directory, the entries of each directory in
the order of their names. The order in which a directory hands out its entries is a parameter.
Links are not followed.
-/

set_option autoImplicit false

namespace ClientRegistry.FileTree

/-- The regular files at or below a place, at most the given number of directories deep. -/
def filesWithin (t : FileTree) (entriesOf : Location → List String) : Nat → Location → List Location
  | 0, _ => []
  | depth + 1, loc =>
    match t.node? loc with
    | some (.file _) => [loc]
    | some .directory | some .systemDirectory =>
      ((entriesOf loc).mergeSort fun a b => decide (a ≤ b)).flatMap fun name =>
        t.filesWithin entriesOf depth (loc ++ [name])
    | some (.link _) | some .sink | none => []

def files (t : FileTree) (loc : Location) : List Location :=
  t.filesWithin t.names (t.height + 1) loc

/-- A place below `loc` as a path that starts with `p`. -/
def pathBelow (p : Path) (loc place : Location) : Path :=
  (place.drop loc.length).foldl (fun q name => q.join ⟨name⟩) p

/-- The place a listing starts from: the entry that a path names, or the directory that it leads to
if it is a link. None where a link leads to no directory. -/
def listingRoot (t : FileTree) (dir : Location) (p : Path) : Except FileFailure (Option Location) := do
  let entry ← t.resolveEntry dir p
  match t.node? entry with
  | some (.link _) =>
    let loc ← t.resolve dir p
    .ok (if t.isDirectory loc then some loc else none)
  | _ => .ok (some entry)

end ClientRegistry.FileTree
