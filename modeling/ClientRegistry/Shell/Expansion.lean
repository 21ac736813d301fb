import ClientRegistry.Shell.Arithmetic
import ClientRegistry.Shell.Pattern
import ClientRegistry.Text.Utf8

/-!
# Expansion

The parts of a word are replaced by what they stand for. What comes from outside of quotes is split
at blanks, and then taken for a pattern.
-/

set_option autoImplicit false

namespace ClientRegistry.Shell

inductive Piece where
  | text (s : List Char) (quoted : Bool)
  /-- Text that blanks part into words. -/
  | loose (s : List Char)
  /-- The end of a word and the start of the next one. -/
  | gap
  deriving DecidableEq, Repr

def Piece.chars : Piece → List Char
  | text s _ => s
  | loose s => s
  | gap => [' ']

def joined (pieces : List Piece) : List Char := pieces.flatMap Piece.chars

def markedChars (pieces : List Piece) : List Marked :=
  pieces.flatMap fun p =>
    match p with
    | .text s quoted => s.map fun c => (c, quoted)
    | _ => p.chars.map fun c => (c, false)

def isSplitting (c : Char) : Bool := c = ' ' || c = '\t' || c = '\n'

structure Fields where
  done : List (List Marked)
  current : Option (List Marked)

namespace Fields

def close (f : Fields) : Fields :=
  match f.current with
  | some w => ⟨f.done ++ [w], none⟩
  | none => f

def add (f : Fields) (s : List Marked) : Fields := { f with current := some (f.current.getD [] ++ s) }

def addLoose (f : Fields) (c : Char) : Fields := if isSplitting c then f.close else f.add [(c, false)]

def addPiece (f : Fields) : Piece → Fields
  | .text s quoted => f.add (s.map fun c => (c, quoted))
  | .loose s => s.foldl addLoose f
  | .gap => (f.add []).close

end Fields

def fieldsOf (pieces : List Piece) : List (List Marked) :=
  (pieces.foldl Fields.addPiece ⟨[], none⟩).close.done

namespace Session

/-- What stands between arguments that become one text. -/
def separator (s : Session) : String :=
  match s.lookUp? "IFS" with
  | some text => String.ofList (text.toList.take 1)
  | none => " "

def optionLetters (s : Session) : String := (if s.strict then "e" else "") ++ if s.wary then "u" else ""

def parameter? (s : Session) (name : String) : Option String :=
  match name with
  | "?" => some (toString s.status)
  | "#" => some (toString s.args.length)
  | "$" => some ownNumber
  | "0" => some s.name
  | "-" => some s.optionLetters
  | "!" => none
  | "@" | "*" => if s.args.isEmpty then none else some (s.separator.intercalate s.args)
  | _ =>
    if name.toList.head?.any Char.isDigit then s.args[Text.digitsValue name.toList - 1]?
    else s.lookUp? name

end Session

/-- The arguments, each as a word of its own. -/
def argumentPieces (args : List String) (quoted : Bool) : List Piece :=
  (args.map fun a => if quoted then Piece.text a.toList true else .loose a.toList).intersperse .gap

/-- A text without the newlines at its end. -/
def dropNewlines (s : List Char) : List Char := (s.reverse.dropWhile (· = '\n')).reverse

/-- What is left of a text after what a pattern matches at its start, as little or as much as it
can match. -/
def dropMatch (longest : Bool) (pattern : List Glob) (s : List Char) : List Char :=
  let sizes := (List.range (s.length + 1)).filter fun n => Glob.matchesAll pattern (s.take n)
  match if longest then sizes.getLast? else sizes.head? with
  | some n => s.drop n
  | none => s

def dropEndMatch (longest : Bool) (pattern : List Glob) (s : List Char) : List Char :=
  let sizes := (List.range (s.length + 1)).filter fun n => Glob.matchesAll pattern (s.drop (s.length - n))
  match if longest then sizes.getLast? else sizes.head? with
  | some n => s.take (s.length - n)
  | none => s

def valuePiece (value : List Char) (quoted : Bool) : Piece := if quoted then .text value true else .loose value

section

-- Runs the text of a command, and gives what it writes.
variable (substitute : List Char → Run ByteArray)

/-- The pieces of a part; `inner` expands the words that stand in it. -/
def expandPart (inner : List Char → Run (List Piece)) : Part → Run (List Piece)
  | .text s quoted => pure [.text s quoted]
  | .command source quoted => do
    let bytes ← substitute source
    pure [valuePiece (dropNewlines (Text.Utf8.decodeLossy bytes).toList) quoted]
  | .arithmetic source quoted => do
    let source := joined (← inner source)
    let s ← get
    match Arithmetic.value? (fun n => argumentNumber ((s.lookUp? n).getD "")) source with
    | some n => pure [valuePiece (toString n).toList quoted]
    | none =>
      complain "arithmetic expression: expecting primary"
      throw (.quit 2)
  | .parameter name change quoted => do
    let s ← get
    let value := s.parameter? name
    let missing (empty : Bool) : Bool := value.isNone || (empty && value = some "")
    let other (w : List Char) : Run (List Piece) := do
      let pieces ← inner w
      pure (if quoted then [.text (joined pieces) true] else pieces)
    let kept : List Piece :=
      if name = "@" then argumentPieces s.args quoted
      else if name = "*" && !quoted then argumentPieces s.args false
      else [valuePiece (value.getD "").toList quoted]
    let fallsBack : Bool := match change with
      | .orElse _ _ | .orAssign _ _ | .orFail _ _ | .instead _ _ => true
      | .keep | .length | .without _ _ _ => name = "@" || name = "*"
    if s.wary && value.isNone && !fallsBack then
      complain (name ++ ": parameter not set")
      throw (.quit 2)
    match change with
    | .keep => pure kept
    | .length => pure [valuePiece (toString (value.getD "").length).toList quoted]
    | .orElse empty w => if missing empty then other w else pure kept
    | .instead empty w => if missing empty then pure [valuePiece [] quoted] else other w
    | .orAssign empty w =>
      if missing empty then
        let text := joined (← inner w)
        modify (·.setVariable name (String.ofList text))
        pure [valuePiece text quoted]
      else pure kept
    | .orFail empty w =>
      if missing empty then
        let text := String.ofList (joined (← inner w))
        complain (name ++ ": " ++ (if text = "" then "parameter not set" else text))
        throw (.quit 2)
      else pure kept
    | .without atEnd longest w =>
      let pattern := Glob.read (markedChars (← inner w))
      let text := (value.getD "").toList
      pure [valuePiece (if atEnd then dropEndMatch longest pattern text else dropMatch longest pattern text)
        quoted]

/-- The pieces of a word. The number bounds how deep words stand in each other. -/
def expandWithin : Nat → List Char → Run (List Piece)
  | 0, _ => pure []
  | depth + 1, raw => do
    let s ← get
    let (home, raw) := match raw with
      | ['~'] | '~' :: '/' :: _ => ([Piece.text ((s.lookUp? "HOME").getD "~").toList true], raw.tail)
      | _ => ([], raw)
    let pieces ← (parts raw).mapM (expandPart substitute (expandWithin depth))
    pure (home ++ pieces.flatten)

def expand (raw : List Char) : Run (List Piece) := expandWithin substitute (raw.length + 1) raw

def expandText (raw : List Char) : Run String := do
  pure (String.ofList (joined (← expand substitute raw)))

/-- The text of a document, in which quotes mean nothing. -/
def expandDocument (text : List Char) : Run String := do
  let pieces ← (quotedParts text.length text).mapM fun p =>
    match p with
    | .text ['"'] _ => pure [Piece.text ['"'] true]
    | _ => expandPart substitute (expand substitute) p
  pure (String.ofList (joined pieces.flatten))

def expandWords (words : List (List Char)) : Run (List String) := do
  let mut result := []
  for raw in words do
    let pieces ← expand substitute raw
    let s ← get
    result := result ++ (fieldsOf pieces).flatMap (matchPaths s.tree s.dir)
  pure result

def expandPattern (raw : List Char) : Run (List Glob) := do
  pure (Glob.read (markedChars (← expand substitute raw)))

end

end ClientRegistry.Shell
