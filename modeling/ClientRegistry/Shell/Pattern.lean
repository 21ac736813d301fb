import ClientRegistry.FileTree.Lookup

/-!
# Patterns

A pattern matches names: a star any text, a question mark one character, and a bracket one of a set
of characters. What is quoted in a pattern matches only itself.
-/

set_option autoImplicit false

namespace ClientRegistry.Shell

/-- A character, and whether it was quoted. -/
abbrev Marked := Char × Bool

inductive Glob where
  | literal (c : Char)
  | one
  | many
  | set (negated : Bool) (ranges : List (Char × Char))
  deriving DecidableEq, Repr

namespace Glob

def readRanges : List (Char × Char) → List Marked → Option (List (Char × Char) × List Marked)
  | _, [] => none
  | ranges, (']', false) :: rest =>
    if ranges = [] then readRanges [(']', ']')] rest else some (ranges.reverse, rest)
  | ranges, (low, _) :: ('-', false) :: (high, quoted) :: rest =>
    if high = ']' && !quoted then some ((('-', '-') :: (low, low) :: ranges).reverse, rest)
    else readRanges ((low, high) :: ranges) rest
  | ranges, (c, _) :: rest => readRanges ((c, c) :: ranges) rest

def readSet (s : List Marked) : Option (Glob × List Marked) :=
  match s with
  | ('!', false) :: rest | ('^', false) :: rest =>
    (readRanges [] rest).map fun (ranges, rest) => (.set true ranges, rest)
  | _ => (readRanges [] s).map fun (ranges, rest) => (.set false ranges, rest)

def readWithin : Nat → List Marked → List Glob
  | 0, _ => []
  | steps + 1, s =>
    match s with
    | [] => []
    | ('*', false) :: rest => .many :: readWithin steps rest
    | ('?', false) :: rest => .one :: readWithin steps rest
    | ('[', false) :: rest =>
      match readSet rest with
      | some (g, rest) => g :: readWithin steps rest
      | none => .literal '[' :: readWithin steps rest
    | (c, _) :: rest => .literal c :: readWithin steps rest

def read (s : List Marked) : List Glob := readWithin s.length s

def isLiteral : Glob → Bool
  | literal _ => true
  | _ => false

def matchesChar : Glob → Char → Bool
  | literal c, x => c = x
  | one, _ => true
  | many, _ => false
  | set negated ranges, x => (ranges.any fun (low, high) => low ≤ x && x ≤ high) != negated

/-- Whether some end of a text, the empty one included, has a property. -/
def anyEnd (holds : List Char → Bool) : List Char → Bool
  | [] => holds []
  | c :: rest => holds (c :: rest) || anyEnd holds rest

def matchesAll : List Glob → List Char → Bool
  | [] => fun s => s.isEmpty
  | .many :: gs => anyEnd (matchesAll gs)
  | g :: gs => fun s =>
    match s with
    | [] => false
    | c :: rest => g.matchesChar c && matchesAll gs rest

end Glob

/-- The names in a directory that a pattern matches; a hidden one only if the pattern says so. -/
def matchingNames (t : FileTree) (loc : Location) (pattern : List Glob) : List String :=
  ([".", ".."] ++ t.names loc).filter fun n =>
    Glob.matchesAll pattern n.toList && (n.toList.head? != some '.' || pattern.head? == some (.literal '.'))

/-- Goes on from paths that have been found by a pattern's next piece. -/
def matchPiece (t : FileTree) (dir : Location) (piece : List Marked) (last : Bool) (found : List String) :
    List String :=
  let pattern := Glob.read piece
  if pattern.all Glob.isLiteral then
    let name := String.ofList (piece.map Prod.fst)
    (found.map (· ++ name)).filter fun p => !last || t.pathExists dir ⟨p⟩
  else
    found.flatMap fun p =>
      match t.resolve dir ⟨if p = "" then "." else p⟩ with
      | .ok loc => if t.isDirectory loc then (matchingNames t loc pattern).map (p ++ ·) else []
      | .error _ => []

def matchPieces (t : FileTree) (dir : Location) : List String → List (List Marked) → List String
  | found, [] => found
  | found, [piece] => matchPiece t dir piece true found
  | found, piece :: rest => matchPieces t dir ((matchPiece t dir piece false found).map (· ++ "/")) rest

/-- The paths that a word matches, in order; the word itself if there are none or it is no
pattern. -/
def matchPaths (t : FileTree) (dir : Location) (word : List Marked) : List String :=
  let text := String.ofList (word.map Prod.fst)
  if (Glob.read word).all Glob.isLiteral then [text]
  else
    match matchPieces t dir [""] (word.splitOnP fun (c, _) => c = '/') with
    | [] => [text]
    | found => found

end ClientRegistry.Shell
