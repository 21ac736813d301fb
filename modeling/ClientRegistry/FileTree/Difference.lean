import ClientRegistry.FileTree.Basic

/-!
# Differences

What has to be removed from a file tree, and then made in it, so that it becomes another one.
-/

set_option autoImplicit false

namespace ClientRegistry.FileTree

/-- Nodes that can be turned into each other by writing a content. -/
def isRewrite : Node → Node → Bool
  | .file _, .file _ => true
  | a, b => a == b

/-- The places that have to be cleared, the innermost first. -/
def cleared (old new : FileTree) : List (Location × Node) :=
  (old.entries.toList.filter fun (loc, node) => !(new.entries[loc]?.any (isRewrite node))).reverse

/-- What has to be made, the outermost first. -/
def made (old new : FileTree) : List (Location × Node) :=
  new.entries.toList.filter fun (loc, node) => old.entries[loc]? != some node

end ClientRegistry.FileTree
