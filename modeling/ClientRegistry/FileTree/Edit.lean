import ClientRegistry.FileTree.Lookup

/-!
# Changing a file tree

A single operation either changes the tree or fails and leaves it alone. Operations made of
several (`makeDirectories`, `removeTree`, `writeWithParents`) answer with the tree as far as
they came.
-/

set_option autoImplicit false

namespace ClientRegistry.FileTree

/-- Whether an entry of this name can be made in a directory. -/
def requireRoom (t : FileTree) (dir : Location) (name : String) : Except FileFailure Unit := do
  requireName name
  match t.node? dir with
  | some .systemDirectory => .error .notFound
  | _ => .ok ()

/-- The place of the file that segments lead to, whether it exists or is still to be made. A link
at their end is handed to `follow`, with the number of links that may be followed after it. -/
def destinationWith (t : FileTree) (follow : Nat → Location → List String → Except FileFailure Location)
    (links : Nat) (base : Location) (segments : List String) : Except FileFailure Location := do
  let (dir, ending, left) ← t.approach links base segments
  match ending with
  | .name n false =>
    requireName n
    match t.node? (dir ++ [n]) with
    | none =>
      t.requireRoom dir n
      .ok (dir ++ [n])
    | some (.link target) =>
      match left with
      | 0 => .error .tooManyLinks
      | left + 1 => follow left (linkStart dir target).1 (linkStart dir target).2
    | some node => if node.isDirectory then .error .isDirectory else .ok (dir ++ [n])
  | _ => .error .isDirectory

/-- The place of the file that a path leads to. The links at the path's end are followed one after
the other, at most the first number of them. -/
def destinationFrom (t : FileTree) : Nat → Nat → Location → List String → Except FileFailure Location
  | 0 => t.destinationWith fun _ _ _ => .error .tooManyLinks
  | hops + 1 => t.destinationWith (t.destinationFrom hops)

def destination (t : FileTree) (dir : Location) (p : Path) : Except FileFailure Location := do
  let (base, segments) ← start dir p
  t.destinationFrom maxLinks maxLinks base segments

def fill (t : FileTree) (loc : Location) (content : ByteArray) : FileTree :=
  match t.node? loc with
  | some .sink => t
  | _ => t.put loc (.file content)

/-- Writes a file as a whole, making it if need be; links are followed. -/
def writeContent (t : FileTree) (dir : Location) (p : Path) (content : ByteArray) :
    Except FileFailure FileTree := do
  let loc ← t.destination dir p
  .ok (t.fill loc content)

/-- Makes a file that must not exist yet, not even as a link. -/
def addFile (t : FileTree) (dir : Location) (p : Path) (content : ByteArray) :
    Except FileFailure FileTree := do
  let (parent, ending) ← t.entryOf dir p
  match ending with
  | .name n false =>
    requireName n
    if (t.node? (parent ++ [n])).isSome then .error .alreadyExists
    else
      t.requireRoom parent n
      .ok (t.put (parent ++ [n]) (.file content))
  | _ => .error .isDirectory

def makeDirectory (t : FileTree) (dir : Location) (p : Path) : Except FileFailure FileTree := do
  let (parent, ending) ← t.entryOf dir p
  match ending with
  | .name n _ =>
    requireName n
    if (t.node? (parent ++ [n])).isSome then .error .alreadyExists
    else
      t.requireRoom parent n
      .ok (t.put (parent ++ [n]) .directory)
  | _ => .error .alreadyExists

def makeLink (t : FileTree) (dir : Location) (p : Path) (target : String) :
    Except FileFailure FileTree := do
  let (parent, ending) ← t.entryOf dir p
  match ending with
  | .name n false =>
    requireName n
    if target == "" then .error .notFound
    else if (t.node? (parent ++ [n])).isSome then .error .alreadyExists
    else
      t.requireRoom parent n
      .ok (t.put (parent ++ [n]) (.link target))
  | .name n true =>
    if (t.node? (parent ++ [n])).isSome then .error .alreadyExists else .error .notFound
  | _ => .error .alreadyExists

/-- Removes an entry that is no directory; a link goes, not what it leads to. -/
def removeEntry (t : FileTree) (dir : Location) (p : Path) : Except FileFailure FileTree := do
  let (parent, ending) ← t.entryOf dir p
  match ending with
  | .name n slash =>
    requireName n
    match t.node? (parent ++ [n]) with
    | none => .error .notFound
    | some node =>
      if node.isDirectory then .error .isDirectory
      else if slash then .error .notDirectory
      else .ok (t.remove (parent ++ [n]))
  | _ => .error .isDirectory

def removeDirectory (t : FileTree) (dir : Location) (p : Path) : Except FileFailure FileTree := do
  let (parent, ending) ← t.entryOf dir p
  match ending with
  | .name n _ =>
    requireName n
    match t.node? (parent ++ [n]) with
    | none => .error .notFound
    | some node =>
      if !node.isDirectory then .error .notDirectory
      else if t.below (parent ++ [n]) != [] then .error .notEmpty
      else .ok (t.remove (parent ++ [n]))
  | .dot => .error .invalid
  | .dotDot => .error .notEmpty
  | .root => .error .busy

/-- Makes the first of the paths, of which each lies in the next one, and as many of the others
as are missing. A path that turns out to be a directory is made already. -/
def makeDirectoryChain (t : FileTree) (dir : Location) : List Path → FileTree × Except FileFailure Unit
  | [] => (t, .ok ())
  | p :: up =>
    if p.text == "" then (t, .ok ())
    else
      match t.makeDirectory dir p with
      | .ok made => (made, .ok ())
      | .error .notFound =>
        match t.makeDirectoryChain dir up with
        | (made, .error e) => (made, .error e)
        | (made, .ok ()) =>
          match made.makeDirectory dir p with
          | .ok done => (done, .ok ())
          | .error e => (made, if made.isDirectoryAt dir p then .ok () else .error e)
      | .error e => (t, if t.isDirectoryAt dir p then .ok () else .error e)

/-- Makes a directory and all that are missing above it. -/
def makeDirectories (t : FileTree) (dir : Location) (p : Path) : FileTree × Except FileFailure Unit :=
  t.makeDirectoryChain dir p.ancestors

/-- Removes a directory with everything in it; a link is removed itself and not followed. -/
def removeTree (t : FileTree) (dir : Location) (p : Path) : FileTree × Except FileFailure Unit :=
  match t.resolveEntry dir p with
  | .error e => (t, .error e)
  | .ok loc =>
    match t.node? loc with
    | some (.link _) =>
      match t.removeEntry dir p with
      | .ok rest => (rest, .ok ())
      | .error e => (t, .error e)
    | some node =>
      if node.isDirectory then
        match (t.removeBelow loc).removeDirectory dir p with
        | .ok rest => (rest, .ok ())
        | .error .notFound => (t.removeBelow loc, .ok ())
        | .error e => (t.removeBelow loc, .error e)
      else (t, .error .notDirectory)
    | none => (t, .error .notFound)

end ClientRegistry.FileTree
