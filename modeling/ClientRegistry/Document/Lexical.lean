import ClientRegistry.Document.Value
import ClientRegistry.Text.Digits
import ClientRegistry.Text.Size

/-!
# Blanks, comments, strings and keys

A reader of a part of the grammar gives what it read and the text that is left. A carriage return
counts only before a line feed, and control characters other than the tab are nowhere allowed.
-/

set_option autoImplicit false

namespace ClientRegistry.Document

def isBlank (c : Char) : Bool := c == ' ' || c == '\t'

def skipBlanks (s : List Char) : List Char := s.dropWhile isBlank

def isText (c : Char) : Bool := c == '\t' || (0x20 ≤ c.toNat && c.toNat != 0x7F)

/-- The text after the end of a line, where there is one. -/
def lineEnd? : List Char → Option (List Char)
  | '\n' :: rest => some rest
  | '\r' :: '\n' :: rest => some rest
  | _ => none

def skipComment (s : List Char) : List Char :=
  match s with
  | '#' :: rest => rest.dropWhile isText
  | _ => s

def restOfLine? (s : List Char) : Option (List Char) :=
  match skipComment (skipBlanks s) with
  | [] => some []
  | rest => lineEnd? rest

/-- Skips blanks, comments and ends of lines, at most the given number of lines. -/
def skipLines : Nat → List Char → List Char
  | 0, s => skipBlanks s
  | lines + 1, s =>
    match lineEnd? (skipComment (skipBlanks s)) with
    | some rest => skipLines lines rest
    | none => skipComment (skipBlanks s)

def skipSpace (s : List Char) : List Char := skipLines s.length s

/-- The character with a code point that is written in a number of hexadecimal digits. -/
def readCodePoint (digits : Nat) (s : List Char) : Option (Char × List Char) := do
  let values ← (s.take digits).mapM Text.hexDigit?
  let n := values.foldl (fun n d => n * 16 + d) 0
  if values.length = digits && n.isValidChar then some (Char.ofNat n, s.drop digits) else none

/-- The character that an escape stands for, after its backslash. -/
def readEscape : List Char → Option (Char × List Char)
  | '"' :: rest => some ('"', rest)
  | '\\' :: rest => some ('\\', rest)
  | 'b' :: rest => some (Char.ofNat 8, rest)
  | 'e' :: rest => some (Char.ofNat 27, rest)
  | 'f' :: rest => some (Char.ofNat 12, rest)
  | 'n' :: rest => some ('\n', rest)
  | 'r' :: rest => some ('\r', rest)
  | 't' :: rest => some ('\t', rest)
  | 'x' :: rest => readCodePoint 2 rest
  | 'u' :: rest => readCodePoint 4 rest
  | 'U' :: rest => readCodePoint 8 rest
  | _ => none

/-- A string on one line with escapes, up to its closing quote. The number bounds the steps. -/
def readBasic : Nat → List Char → Option (List Char × List Char)
  | 0, _ => none
  | steps + 1, s =>
    match s with
    | '"' :: rest => some ([], rest)
    | '\\' :: rest => do
      let (c, rest) ← readEscape rest
      let (body, rest) ← readBasic steps rest
      some (c :: body, rest)
    | c :: rest =>
      if isText c then do
        let (body, rest) ← readBasic steps rest
        some (c :: body, rest)
      else none
    | [] => none

/-- A string on one line without escapes, up to its closing quote. -/
def readLiteral (s : List Char) : Option (List Char × List Char) :=
  match s.span fun c => isText c && c != '\'' with
  | (body, '\'' :: rest) => some (body, rest)
  | _ => none

/-- The quotes that may stand before the three that close a string, and the text after all. -/
def closing? (quote : Char) (s : List Char) : Option (List Char × List Char) :=
  let quotes := (s.takeWhile (· == quote)).length
  if quotes < 3 then none
  else some (List.replicate (min quotes 5 - 3) quote, s.drop (min quotes 5))

/-- Skips what follows a backslash at the end of a line: blanks and ends of lines. -/
def skipContinuation : Nat → List Char → List Char
  | 0, s => s
  | lines + 1, s =>
    match lineEnd? (skipBlanks s) with
    | some rest => skipContinuation lines rest
    | none => skipBlanks s

def readLong (quote : Char) : Nat → List Char → Option (List Char × List Char)
  | 0, _ => none
  | steps + 1, s =>
    match closing? quote s with
    | some found => some found
    | none =>
      match s with
      | '\r' :: '\n' :: rest => do
        let (body, rest) ← readLong quote steps rest
        some ('\r' :: '\n' :: body, rest)
      | '\\' :: rest =>
        if quote = '\'' then do
          let (body, rest) ← readLong quote steps rest
          some ('\\' :: body, rest)
        else
          match lineEnd? (skipBlanks rest) with
          | some after => readLong quote steps (skipContinuation after.length after)
          | none => do
            let (c, rest) ← readEscape rest
            let (body, rest) ← readLong quote steps rest
            some (c :: body, rest)
      | c :: rest =>
        if isText c || c == '\n' then do
          let (body, rest) ← readLong quote steps rest
          some (c :: body, rest)
        else none
      | [] => none

/-- The string that starts here. The end of a line right after three quotes does not count. -/
def readString (s : List Char) : Option (String × List Char) := do
  let (body, rest) ←
    match s with
    | '"' :: '"' :: '"' :: rest => readLong '"' s.length ((lineEnd? rest).getD rest)
    | '\'' :: '\'' :: '\'' :: rest => readLong '\'' s.length ((lineEnd? rest).getD rest)
    | '"' :: rest => readBasic s.length rest
    | '\'' :: rest => readLiteral rest
    | _ => none
  some (String.ofList body, rest)

/-- The span from one rest of a text to a later one, in a text of the given size. -/
def spanOf (size : Nat) (before after : List Char) : Span :=
  ⟨size - Text.byteCount before, Text.byteCount before - Text.byteCount after⟩

def isBareKeyChar (c : Char) : Bool := c.isAlphanum || c == '_' || c == '-'

/-- A key without dots. -/
def readSimpleKey (size : Nat) (s : List Char) : Option (Key × List Char) := do
  let (name, rest) ←
    match s with
    | '"' :: rest => (readBasic s.length rest).map fun (body, rest) => (String.ofList body, rest)
    | '\'' :: rest => (readLiteral rest).map fun (body, rest) => (String.ofList body, rest)
    | _ =>
      match s.span isBareKeyChar with
      | ([], _) => none
      | (name, rest) => some (String.ofList name, rest)
  some (⟨name, spanOf size s rest⟩, rest)

/-- Keys with dots between them; blanks may stand around the dots. The number bounds the keys. -/
def readKeys (size : Nat) : Nat → List Char → Option (List Key × List Char)
  | 0, _ => none
  | steps + 1, s => do
    let (key, rest) ← readSimpleKey size s
    match skipBlanks rest with
    | '.' :: rest =>
      let (keys, rest) ← readKeys size steps (skipBlanks rest)
      some (key :: keys, rest)
    | rest => some ([key], rest)

def readDottedKey (size : Nat) (s : List Char) : Option (List Key × List Char) :=
  readKeys size s.length s

end ClientRegistry.Document
