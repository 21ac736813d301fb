/-!
# Paths as they are written

A path keeps the text it was given, because that text is shown to the user and handed to other
programs. All comparisons go through its *components*: repeated slashes, a trailing slash and
interior `.` leave no trace there, a leading `.` and every `..` do.
-/

set_option autoImplicit false

namespace ClientRegistry

/-- A path as it is written, which is a text. Paths whose bytes are no text are left out, so that the lossy
conversion of paths for a command line changes none. -/
structure Path where
  text : String
  deriving DecidableEq, Repr, Inhabited

inductive Component where
  | root
  | current
  | parent
  | name (text : String)
  deriving DecidableEq, Repr

/-- A path in the reading that keeps its text: how it starts, and what stands between the
slashes after that. -/
inductive Anchor where
  | root
  | current
  | none
  deriving DecidableEq, Repr

namespace Path

instance : Coe String Path := ⟨Path.mk⟩

/-- What stands between the slashes, empty pieces included. -/
def segments (p : Path) : List String := (p.text.toList.splitOn '/').map String.ofList

def isAbsolute (p : Path) : Bool := p.text.toList.head? == some '/'

/-- Segments that are no step: the empty one and `.`. -/
def isTrivial (segment : String) : Bool := segment == "" || segment == "."

/-- The step that a segment stands for when it does not open a relative path. -/
def stepOf? (segment : String) : Option Component :=
  if isTrivial segment then none
  else if segment == ".." then some .parent
  else some (.name segment)

/-- How the path starts, and its segments after that. -/
def anchored (p : Path) : Anchor × List String :=
  if p.isAbsolute then (.root, p.segments.tail)
  else if p.segments.head? == some "." then (.current, p.segments.tail)
  else (.none, p.segments)

def components (p : Path) : List Component :=
  match p.anchored with
  | (.root, body) => .root :: body.filterMap stepOf?
  | (.current, body) => .current :: body.filterMap stepOf?
  | (.none, body) => body.filterMap stepOf?

def ofAnchored : Anchor → List String → Path
  | .root, body => ⟨"/" ++ "/".intercalate body⟩
  | .current, [] => ⟨"."⟩
  | .current, body => ⟨"./" ++ "/".intercalate body⟩
  | .none, body => ⟨"/".intercalate body⟩

/-- `q` seen from the directory `p`; an absolute `q` stays what it is. -/
def join (p q : Path) : Path :=
  if q.isAbsolute then q
  else if p.text.toList.getLast?.all (· == '/') then ⟨p.text ++ q.text⟩
  else ⟨p.text ++ "/" ++ q.text⟩

/-- `p` is `base` or lies below it, component by component. -/
def startsWith (p base : Path) : Bool := base.components.isPrefixOf p.components

def trimEndSegments (body : List String) : List String := (body.reverse.dropWhile isTrivial).reverse

/-- The segments after the first `n` that are steps. -/
def dropSteps : Nat → List String → List String
  | 0, body => body
  | _, [] => []
  | n + 1, segment :: rest => if isTrivial segment then dropSteps (n + 1) rest else dropSteps n rest

/-- The rest of `p` after `base`, in the text of `p`; none when `p` is not at or below `base`. -/
def relativeTo? (p base : Path) : Option Path :=
  if p.startsWith base then
    match base.components.length, p.anchored with
    | 0, (anchor, body) => some (ofAnchored anchor (trimEndSegments body))
    | n, (.none, body) => some (ofAnchored .none (trimEndSegments ((dropSteps n body).dropWhile isTrivial)))
    | n + 1, (_, body) => some (ofAnchored .none (trimEndSegments ((dropSteps n body).dropWhile isTrivial)))
  else none

/-- The path without its last component; none for the root and the empty path. -/
def parent? (p : Path) : Option Path :=
  match p.anchored with
  | (anchor, body) =>
    match trimEndSegments body with
    | [] =>
      match anchor with
      | .current => some ⟨""⟩
      | _ => none
    | kept => some (ofAnchored anchor (trimEndSegments kept.dropLast))

/-- The last component, when it is a name. -/
def fileName? (p : Path) : Option String :=
  match p.components.getLast? with
  | some (.name n) => some n
  | _ => none

/-- The path itself and the paths above it, each one component shorter. -/
def ancestors (p : Path) : List Path := go p.segments.length p
where
  go : Nat → Path → List Path
    | 0, p => [p]
    | n + 1, p =>
      match p.parent? with
      | some up => p :: go n up
      | none => [p]

end Path

/-- A name split at its last dot into stem and extension; a name that starts with its only dot
has no extension. -/
def splitExtension (name : String) : String × Option String :=
  match (name.toList.reverse.span (· ≠ '.')) with
  | (_, []) => (name, none)
  | (_, [_]) => (name, none)
  | (ext, _ :: stem) => (String.ofList stem.reverse, some (String.ofList ext.reverse))

def Path.extension? (p : Path) : Option String := p.fileName?.bind fun n => (splitExtension n).2

/-- A component without its extension. What is left is read as a step again: `..ts` leaves `.` and
`...ts` leaves `..`. -/
def Component.withoutExtension : Component → Component
  | .name n =>
    match splitExtension n with
    | (stem, some _) => (Path.stepOf? stem).getD .current
    | (_, none) => .name n
  | c => c

def Component.name? : Component → Option String
  | .name n => some n
  | _ => none

end ClientRegistry
