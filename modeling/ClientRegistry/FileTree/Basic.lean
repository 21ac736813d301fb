import Std.Data.ExtTreeMap
import ClientRegistry.Path.Folding
import ClientRegistry.FileTree.Failure

/-!
# File trees

A file tree says what stands at each place: a directory, a file with its bytes, a symbolic link
with its text, or one of the system's own entries. Two trees with the same entries are equal,
and listings are in the order of the places, name by name.
-/

set_option autoImplicit false

namespace ClientRegistry

/-- Contents are equal when their bytes are. -/
local instance contentsDecidableEq : DecidableEq ByteArray := ByteArray.instDecidableEq

inductive Node where
  | directory
  | file (content : ByteArray)
  | link (target : String)
  /-- A directory of the system's own, in which nothing can be made. -/
  | systemDirectory
  /-- A device, which need not give back what is written to it. Every device is taken for the null device
  here, which keeps nothing and is read as an empty file. -/
  | sink
  deriving DecidableEq

namespace Node

def isDirectory : Node → Bool
  | directory => true
  | systemDirectory => true
  | _ => false

end Node

structure FileTree where
  entries : Std.ExtTreeMap Location Node compare

namespace FileTree

def empty : FileTree := ⟨∅⟩

/-- What stands at a place. The root is always a directory. -/
def node? (t : FileTree) (loc : Location) : Option Node :=
  if loc = [] then some .directory else t.entries[loc]?

def isDirectory (t : FileTree) (loc : Location) : Bool := (t.node? loc).any Node.isDirectory

def put (t : FileTree) (loc : Location) (node : Node) : FileTree := ⟨t.entries.insert loc node⟩

def remove (t : FileTree) (loc : Location) : FileTree := ⟨t.entries.erase loc⟩

/-- The tree without what lies strictly below a place. -/
def removeBelow (t : FileTree) (loc : Location) : FileTree :=
  ⟨t.entries.filter fun at' _ => !(loc.isPrefixOf at' && at' != loc)⟩

def below (t : FileTree) (loc : Location) : List (Location × Node) :=
  t.entries.toList.filter fun (at', _) => loc.isPrefixOf at' && at' != loc

def names (t : FileTree) (loc : Location) : List String :=
  (t.below loc).filterMap fun (at', _) =>
    match at'.drop loc.length with
    | [name] => some name
    | _ => none

def height (t : FileTree) : Nat := t.entries.toList.foldl (fun n (at', _) => max n at'.length) 0

@[ext] theorem ext {s t : FileTree} (h : ∀ loc : Location, s.entries[loc]? = t.entries[loc]?) : s = t := by
  cases s
  cases t
  congr
  exact Std.ExtTreeMap.ext_getElem? h

theorem node?_put (t : FileTree) (loc other : Location) (node : Node) (h : other ≠ []) :
    (t.put loc node).node? other = if loc = other then some node else t.node? other := by
  simp [node?, put, h, Std.ExtTreeMap.getElem?_insert]

theorem node?_remove (t : FileTree) (loc other : Location) (h : other ≠ []) :
    (t.remove loc).node? other = if loc = other then none else t.node? other := by
  simp [node?, remove, h, Std.ExtTreeMap.getElem?_erase]

end FileTree

end ClientRegistry
