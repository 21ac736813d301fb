import ClientRegistry.CommandLine.Execution
import ClientRegistry.FileTree.Difference
import ClientRegistry.Host.Shell

/-!
# The program

The files below the current directory are read into a file tree, the request is carried out on it,
and the files are brought to the state that it leaves.
-/

set_option autoImplicit false

namespace ClientRegistry.Main

def withDirectories (t : FileTree) (loc : Location) : FileTree :=
  (List.range (loc.length + 1)).foldl (fun t n => t.put (loc.take n) .directory) t

/-- Reads all that is below the current directory. -/
partial def loadBelow (loc : Location) (t : FileTree) : IO FileTree := do
  let start ← IO.currentDir
  let rec visit (dir : Location) (t : FileTree) : IO FileTree := do
    let mut t := t
    for entry in ← (start / (dir.drop loc.length).foldl (fun p name => p / name) start).readDir do
      let place := dir ++ [entry.fileName]
      let info ← entry.path.symlinkMetadata
      match info.type with
      | .dir => t ← visit place (t.put place .directory)
      | .file => t := t.put place (.file (← IO.FS.readBinFile entry.path))
      | .symlink =>
        try
          t := t.put place (.link (← IO.FS.realPath entry.path).toString)
        catch _ => pure ()
      | .other => pure ()
    return t
  visit loc t

/-- Brings one place to the state that it has in the tree. -/
def store (place : Location) (node : Node) : IO Unit := do
  let name := (Location.toPath place).text
  match node with
  | .directory => IO.FS.createDirAll name
  | .file content => IO.FS.writeBinFile name content
  | .link _ | .systemDirectory | .sink => pure ()

def clear (place : Location) (node : Node) : IO Unit := do
  let name := (Location.toPath place).text
  if node.isDirectory then IO.FS.removeDir name else IO.FS.removeFile name

end ClientRegistry.Main

open ClientRegistry in
def main (args : List String) : IO UInt32 := do
  let loc := Path.locate [] ⟨(← IO.currentDir).toString⟩
  let before ← Main.loadBelow loc (Main.withDirectories Host.surroundings loc)
  let answer := CommandLine.execute (Host.ofShell loc) (WatchEvent.ofQueue []) args before
  for (place, node) in before.cleared answer.tree do
    Main.clear place node
  for (place, node) in before.made answer.tree do
    Main.store place node
  IO.print answer.output
  IO.eprint answer.errorOutput
  return answer.exitCode.toUInt32
