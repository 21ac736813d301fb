import ClientRegistry.FileTree.Basic

/-!
# Finding what a path names

A path is followed segment by segment from a directory. Every segment, also an empty one, asks
that the place reached so far is a directory; links are followed on the way, at most
`maxLinks` of them in all. A path seen as *a name in a directory* is what operations use that
make or remove an entry.
-/

set_option autoImplicit false

namespace ClientRegistry

/-- How a path ends: in nothing but slashes, in `.`, in `..`, or in a name, which slashes may
follow. -/
inductive Ending where
  | root
  | dot
  | dotDot
  | name (text : String) (slash : Bool)
  deriving DecidableEq, Repr

def Ending.ofSegments (segments : List String) : List String × Ending :=
  let core := (segments.reverse.dropWhile (· == "")).reverse
  match core.getLast? with
  | none => ([], .root)
  | some "." => (core.dropLast, .dot)
  | some ".." => (core.dropLast, .dotDot)
  | some n => (core.dropLast, .name n (core.length < segments.length))

namespace FileTree

def maxLinks : Nat := 40

/-- The longest name, in bytes. -/
def maxNameBytes : Nat := 255

/-- The longest path, in bytes. -/
def maxPathBytes : Nat := 4095

def requireDirectory (t : FileTree) (loc : Location) : Except FileFailure Unit :=
  match t.node? loc with
  | none => .error .notFound
  | some node => if node.isDirectory then .ok () else .error .notDirectory

def requireName (name : String) : Except FileFailure Unit :=
  if maxNameBytes < name.utf8ByteSize then .error .nameTooLong else .ok ()

def linkStart (dir : Location) (target : String) : Location × List String :=
  (if (Path.mk target).isAbsolute then [] else dir, (Path.mk target).segments)

/-- Follows segments until a link is met, which `follow` takes over. The answer also says how
many more links may be followed. -/
def steps (t : FileTree) (links : Nat)
    (follow : Location → List String → Except FileFailure (Location × Nat)) :
    Location → List String → Except FileFailure (Location × Nat)
  | loc, [] => .ok (loc, links)
  | loc, segment :: rest => do
    t.requireDirectory loc
    if Path.isTrivial segment then steps t links follow loc rest
    else if segment == ".." then steps t links follow loc.dropLast rest
    else
      requireName segment
      match t.node? (loc ++ [segment]) with
      | none => .error .notFound
      | some (.link target) =>
        follow (linkStart loc target).1 ((linkStart loc target).2 ++ rest)
      | some _ => steps t links follow (loc ++ [segment]) rest

/-- Follows segments through at most the given number of links. -/
def walk (t : FileTree) : Nat → Location → List String → Except FileFailure (Location × Nat)
  | 0 => steps t 0 fun _ _ => .error .tooManyLinks
  | links + 1 => steps t (links + 1) (walk t links)

/-- Where a path starts, seen from a directory, and its segments; not every text is a path. -/
def start (dir : Location) (p : Path) : Except FileFailure (Location × List String) :=
  if p.text.toList.contains (Char.ofNat 0) then .error .nulInPath
  else if p.text == "" then .error .notFound
  else if maxPathBytes < p.text.utf8ByteSize then .error .nameTooLong
  else .ok (linkStart dir p.text)

/-- The place a path names, every link followed. -/
def resolve (t : FileTree) (dir : Location) (p : Path) : Except FileFailure Location := do
  let (base, segments) ← start dir p
  let (loc, _) ← t.walk maxLinks base segments
  .ok loc

/-- The directory in which segments name an entry, the ending, and how many more links may be
followed. -/
def approach (t : FileTree) (links : Nat) (base : Location) (segments : List String) :
    Except FileFailure (Location × Ending × Nat) := do
  let (loc, left) ← t.walk links base (Ending.ofSegments segments).1
  t.requireDirectory loc
  .ok (loc, (Ending.ofSegments segments).2, left)

/-- A path as an ending in a directory. -/
def entryOf (t : FileTree) (dir : Location) (p : Path) : Except FileFailure (Location × Ending) := do
  let (base, segments) ← start dir p
  let (loc, ending, _) ← t.approach maxLinks base segments
  .ok (loc, ending)

/-- The place a path names, a link at its end not followed. -/
def resolveEntry (t : FileTree) (dir : Location) (p : Path) : Except FileFailure Location := do
  let (loc, ending) ← t.entryOf dir p
  match ending with
  | .name n false =>
    requireName n
    if (t.node? (loc ++ [n])).isSome then .ok (loc ++ [n]) else .error .notFound
  | _ => t.resolve dir p

/-- Something stands where the path leads, links followed. -/
def pathExists (t : FileTree) (dir : Location) (p : Path) : Bool := (t.resolve dir p).toBool

def isDirectoryAt (t : FileTree) (dir : Location) (p : Path) : Bool :=
  match t.resolve dir p with
  | .ok loc => t.isDirectory loc
  | .error _ => false

def contentAt (t : FileTree) (dir : Location) (p : Path) : Except FileFailure ByteArray := do
  let loc ← t.resolve dir p
  match t.node? loc with
  | some (.file content) => .ok content
  | some .sink => .ok ByteArray.empty
  | some .directory | some .systemDirectory => .error .isDirectory
  | some (.link _) | none => .error .notFound

def textAt (t : FileTree) (dir : Location) (p : Path) : Except FileFailure String := do
  let content ← t.contentAt dir p
  match String.fromUTF8? content with
  | some text => .ok text
  | none => .error .notUtf8

end FileTree

end ClientRegistry
