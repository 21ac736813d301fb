import ClientRegistry.Document.Scalar
import ClientRegistry.Document.Tables

/-!
# Reading documents

A document is read line by line: a header opens a table, and a key gives a value to the table that
is open. Arrays and tables between braces may go over several lines.
-/

set_option autoImplicit false

namespace ClientRegistry.Document

/-- How many arrays and tables between braces may stand inside each other. -/
def maxDepth : Nat := 80

/-- Items with commas between them, up to the closing character; a comma may stand after the last
one. The number bounds the items. -/
def readItems {α : Type} (item : List Char → Option (α × List Char)) (close : Char) :
    Nat → List Char → Option (List α × List Char)
  | 0, _ => none
  | steps + 1, s =>
    match skipSpace s with
    | [] => none
    | c :: rest =>
      if c = close then some ([], rest)
      else do
        let (x, rest) ← item (c :: rest)
        match skipSpace rest with
        | ',' :: rest =>
          let (xs, rest) ← readItems item close steps rest
          some (x :: xs, rest)
        | c :: rest => if c = close then some ([x], rest) else none
        | [] => none

def readPair (size : Nat) (value : List Char → Option ((Span × Value) × List Char)) (s : List Char) :
    Option ((List Key × Span × Value) × List Char) := do
  let (keys, rest) ← readDottedKey size s
  match skipBlanks rest with
  | '=' :: rest =>
    let (v, rest) ← value (skipBlanks rest)
    some ((keys, v), rest)
  | _ => none

/-- Adds a pair, of whose keys the last one names the value. -/
def addKeys (es : Entries) : List Key × Span × Value → Option Entries
  | (keys, span, v) =>
    match keys.reverse with
    | [] => none
    | k :: path => addPair path.reverse k span v es

def readValue (size : Nat) : Nat → List Char → Option ((Span × Value) × List Char)
  | depth + 1, '[' :: rest => do
    let (items, after) ← readItems (readValue size depth) ']' (rest.length + 1) rest
    some ((spanOf size ('[' :: rest) after, .array items), after)
  | depth + 1, '\x7b' :: rest => do
    let (pairs, after) ← readItems (readPair size (readValue size depth)) '\x7d' (rest.length + 1) rest
    let entries ← pairs.foldlM addKeys []
    some ((spanOf size ('\x7b' :: rest) after, .table .inline entries), after)
  | _, s =>
    match s with
    | '"' :: _ | '\'' :: _ => do
      let (text, after) ← readString s
      some ((spanOf size s after, .string text), after)
    | _ => do
      let (word, after) := splitWord s
      let v ← wordValue? word
      some ((spanOf size s after, v), after)

inductive Statement where
  | table (keys : List Key) (span : Span)
  | item (keys : List Key) (span : Span)
  | pair (keys : List Key) (span : Span) (v : Value)

def readHeader (size : Nat) (s : List Char) : Option (Statement × List Char) :=
  match s with
  | '[' :: '[' :: rest => do
    let (keys, rest) ← readDottedKey size (skipBlanks rest)
    match skipBlanks rest with
    | ']' :: ']' :: rest => some (.item keys (spanOf size s rest), rest)
    | _ => none
  | '[' :: rest => do
    let (keys, rest) ← readDottedKey size (skipBlanks rest)
    match skipBlanks rest with
    | ']' :: rest => some (.table keys (spanOf size s rest), rest)
    | _ => none
  | _ => none

def readStatement (size : Nat) (s : List Char) : Option (Statement × List Char) :=
  match s with
  | '[' :: _ => readHeader size s
  | _ => do
    let ((keys, span, v), rest) ← readPair size (readValue size maxDepth) s
    some (.pair keys span v, rest)

def readStatements (size : Nat) : Nat → List Char → Option (List Statement)
  | 0, _ => none
  | steps + 1, s =>
    match skipSpace s with
    | [] => some []
    | start => do
      let (statement, rest) ← readStatement size start
      let rest ← restOfLine? rest
      let more ← readStatements size steps rest
      some (statement :: more)

/-- The entries read so far, and the header of the table that is open. -/
structure Building where
  entries : Entries
  header : List Key

def Building.add (b : Building) : Statement → Option Building
  | .table keys span =>
    match keys.reverse with
    | [] => none
    | k :: path => do
      let es ← changeAt .implied enterForHeader (openTable k span) path.reverse b.entries
      some ⟨es, keys⟩
  | .item keys span =>
    match keys.reverse with
    | [] => none
    | k :: path => do
      let es ← changeAt .implied enterForHeader (openItem k span) path.reverse b.entries
      some ⟨es, keys⟩
  | .pair keys span v => do
    let es ← changeOpen (fun es => addKeys es (keys, span, v)) b.header b.entries
    some ⟨es, b.header⟩

/-- The table that a text says. A mark of the byte order at its start does not count. -/
def read (text : String) : Option Entries := do
  let size := text.utf8ByteSize
  let s := match text.toList with
    | c :: rest => if c = Char.ofNat 0xFEFF then rest else c :: rest
    | [] => []
  let statements ← readStatements size (s.length + 1) s
  let built ← statements.foldlM Building.add ⟨[], []⟩
  some built.entries

end ClientRegistry.Document
