import ClientRegistry.FileTree.Lookup
import ClientRegistry.Watch.Change

/-!
# Which changes count

A change counts when it makes, modifies or removes a schema that is no output. Anything in the
output directory is output, whether its path starts at the root of the project, at the root of
the file tree, or is written without links.
-/

set_option autoImplicit false

namespace ClientRegistry.Watch

def schemaSuffix : String := ".proto"

structure Filter where
  root : Path
  /-- The output directory in all its spellings. -/
  outDirs : List Path
  deriving DecidableEq, Repr

namespace Filter

/-- The place of a directory, written without links, where it exists. -/
def canonical? (t : FileTree) (dir : Location) (p : Path) : Option Path :=
  match t.resolve dir p with
  | .ok loc => some loc.toPath
  | .error _ => none

def ofOutDir (t : FileTree) (dir : Location) (root outDir : Path) : Filter where
  root := root
  outDirs := outDir :: root.join outDir :: (canonical? t dir (root.join outDir)).toList

def isOutput (f : Filter) (p : Path) : Bool :=
  f.outDirs.any fun out => p.startsWith out || (f.root.join p).startsWith out

def isSchema (p : Path) : Bool := schemaSuffix.toList.isSuffixOf p.text.toList

def accepts (f : Filter) (c : Change) : Bool :=
  c.kind != .other && isSchema c.path && !f.isOutput c.path

end Filter

end ClientRegistry.Watch
