import ClientRegistry.Shell.Token

/-!
# Words

A word is made of parts: text, quoted or not, and the parameters, commands and numbers that are put
in its place. The value of a word without such parts is its text without the quotes.
-/

set_option autoImplicit false

namespace ClientRegistry.Shell

inductive Change where
  | keep
  | length
  /-- Another word where the parameter is unset, or, if `empty` is set, is empty. -/
  | orElse (empty : Bool) (word : List Char)
  | orAssign (empty : Bool) (word : List Char)
  | orFail (empty : Bool) (word : List Char)
  /-- Another word where the parameter is set. -/
  | instead (empty : Bool) (word : List Char)
  /-- Without what a pattern matches at the start or at the end, as little or as much of it. -/
  | without (atEnd : Bool) (longest : Bool) (pattern : List Char)
  deriving DecidableEq, Repr

inductive Part where
  | text (s : List Char) (quoted : Bool)
  | parameter (name : String) (change : Change) (quoted : Bool)
  | command (source : List Char) (quoted : Bool)
  | arithmetic (source : List Char) (quoted : Bool)
  deriving DecidableEq, Repr

/-- What a frame that has just been opened holds, and the text after its end. -/
def splitFrame : Nesting → Nat → List Char → List Char × List Char
  | _, _, [] => ([], [])
  | n, depth, c :: rest =>
    let next := n.step c
    if next.frames.length < depth then ([], rest)
    else
      let (inside, after) := splitFrame next depth rest
      (c :: inside, after)

def splitOpened (f : Frame) (s : List Char) : List Char × List Char :=
  splitFrame (Nesting.none.push f) 1 s

def isNameStart (c : Char) : Bool := c.isAlpha || c == '_'

def isNameChar (c : Char) : Bool := c.isAlphanum || c == '_'

def isSpecialName (c : Char) : Bool := c.isDigit || "@*#?$!-".toList.contains c

def readChange : List Char → Change
  | ':' :: '-' :: w => .orElse true w
  | '-' :: w => .orElse false w
  | ':' :: '=' :: w => .orAssign true w
  | '=' :: w => .orAssign false w
  | ':' :: '?' :: w => .orFail true w
  | '?' :: w => .orFail false w
  | ':' :: '+' :: w => .instead true w
  | '+' :: w => .instead false w
  | '#' :: '#' :: w => .without false true w
  | '#' :: w => .without false false w
  | '%' :: '%' :: w => .without true true w
  | '%' :: w => .without true false w
  | _ => .keep

def splitName (s : List Char) : List Char × List Char :=
  match s with
  | [] => ([], [])
  | c :: rest =>
    if isNameStart c then (c :: rest).span isNameChar
    else if c.isDigit then (c :: rest).span Char.isDigit
    else if isSpecialName c then ([c], rest)
    else ([], c :: rest)

/-- A parameter between braces. -/
def readBraced (inside : List Char) (quoted : Bool) : Part :=
  match inside with
  | '#' :: rest =>
    match splitName rest with
    | (name, []) =>
      if name = [] then .parameter "#" .keep quoted else .parameter (String.ofList name) .length quoted
    | _ => .parameter "#" (readChange rest) quoted
  | _ =>
    let (name, rest) := splitName inside
    .parameter (String.ofList name) (readChange rest) quoted

def readDollar (quoted : Bool) (s : List Char) : Part × List Char :=
  match s with
  | '\x7b' :: rest =>
    let (inside, after) := splitOpened .brace rest
    (readBraced inside quoted, after)
  | '(' :: '(' :: rest =>
    let (inside, after) := splitOpened .substitution ('(' :: rest)
    if inside.getLast? = some ')' then (.arithmetic (inside.tail.dropLast) quoted, after)
    else (.command inside quoted, after)
  | '(' :: rest =>
    let (inside, after) := splitOpened .substitution rest
    (.command inside quoted, after)
  | c :: rest =>
    if isNameStart c then
      let (name, after) := splitName s
      (.parameter (String.ofList name) .keep quoted, after)
    else if isSpecialName c then (.parameter c.toString .keep quoted, rest)
    else (.text ['$'] quoted, s)
  | [] => (.text ['$'] quoted, [])

/-- A command between backquotes, in which a backslash before some characters does not count. -/
def unescapeBackquoted : List Char → List Char
  | '\\' :: c :: rest =>
    if c = '\x60' || c = '\\' || c = '$' then c :: unescapeBackquoted rest
    else '\\' :: c :: unescapeBackquoted rest
  | c :: rest => c :: unescapeBackquoted rest
  | [] => []

/-- The parts of a text between double quotes. The number bounds the steps. -/
def quotedParts : Nat → List Char → List Part
  | 0, _ => []
  | steps + 1, s =>
    match s with
    | [] => []
    | '\\' :: c :: rest =>
      if c = '$' || c = '\x60' || c = '"' || c = '\\' then .text [c] true :: quotedParts steps rest
      else .text ['\\', c] true :: quotedParts steps rest
    | '$' :: rest =>
      let (part, after) := readDollar true rest
      part :: quotedParts steps after
    | '\x60' :: rest =>
      let (inside, after) := splitOpened .backquote rest
      .command (unescapeBackquoted inside) true :: quotedParts steps after
    | c :: rest => .text [c] true :: quotedParts steps rest

def partsWithin : Nat → List Char → List Part
  | 0, _ => []
  | steps + 1, s =>
    match s with
    | [] => []
    | '\\' :: c :: rest => .text [c] true :: partsWithin steps rest
    | '\'' :: rest =>
      let (inside, after) := splitOpened .single rest
      .text inside true :: partsWithin steps after
    | '"' :: rest =>
      let (inside, after) := splitOpened .double rest
      (if inside = [] then [.text [] true] else quotedParts inside.length inside) ++ partsWithin steps after
    | '$' :: rest =>
      let (part, after) := readDollar false rest
      part :: partsWithin steps after
    | '\x60' :: rest =>
      let (inside, after) := splitOpened .backquote rest
      .command (unescapeBackquoted inside) false :: partsWithin steps after
    | c :: rest => .text [c] false :: partsWithin steps rest

def parts (raw : List Char) : List Part := partsWithin raw.length raw

/-- A character that means something of its own when it is not quoted: it matches names. -/
def isPatternChar (c : Char) : Bool := c = '*' || c = '?' || c = '['

/-- The text of a part that is not put in the place of something else. -/
def Part.plain? : Part → Option (List Char)
  | .text s quoted => if !quoted && s.any isPatternChar then none else some s
  | _ => none

/-- The value of a word that nothing is expanded in: its text without the quotes. -/
def value? (raw : List Char) : Option (List Char) :=
  if raw.head? = some '~' then none
  else ((parts raw).mapM Part.plain?).map List.flatten

end ClientRegistry.Shell
