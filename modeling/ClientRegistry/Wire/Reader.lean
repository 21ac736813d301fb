import ClientRegistry.Text.Digits
import ClientRegistry.Wire.Value

/-!
# Reading JSON

A reader of a part of the grammar gives what it read and the text that is left. Only white space
may follow the value, at most `maxDepth` values stand inside each other, and no number is too large
for a double.
-/

set_option autoImplicit false

namespace ClientRegistry.Wire

open Text (hexDigit? digitsValue)

def maxDepth : Nat := 127

def isSpace (c : Char) : Bool := c == ' ' || c == '\n' || c == '\t' || c == '\r'

def skipSpace (s : List Char) : List Char := s.dropWhile isSpace

def readUnit : List Char → Option (Nat × List Char)
  | a :: b :: c :: d :: rest => do
    let a ← hexDigit? a
    let b ← hexDigit? b
    let c ← hexDigit? c
    let d ← hexDigit? d
    some (((a * 16 + b) * 16 + c) * 16 + d, rest)
  | _ => none

def escapeLetter? : Char → Option Char
  | '"' => some '"'
  | '\\' => some '\\'
  | '/' => some '/'
  | 'b' => some (Char.ofNat 8)
  | 'f' => some (Char.ofNat 12)
  | 'n' => some '\n'
  | 'r' => some '\r'
  | 't' => some '\t'
  | _ => none

/-- The character after a backslash and `u`; a character beyond the first plane is a pair of
units, and half a pair is none. -/
def readEscapedUnit (s : List Char) : Option (Char × List Char) := do
  let (high, rest) ← readUnit s
  if 0xD800 ≤ high && high ≤ 0xDBFF then
    match rest with
    | '\\' :: 'u' :: rest =>
      let (low, rest) ← readUnit rest
      if 0xDC00 ≤ low && low ≤ 0xDFFF then
        some (Char.ofNat (0x10000 + (high - 0xD800) * 0x400 + (low - 0xDC00)), rest)
      else none
    | _ => none
  else if 0xDC00 ≤ high && high ≤ 0xDFFF then none
  else some (Char.ofNat high, rest)

def readStringBody : Nat → List Char → Option (List Char × List Char)
  | 0, _ => none
  | steps + 1, s =>
    match s with
    | '"' :: rest => some ([], rest)
    | '\\' :: 'u' :: rest => do
      let (c, rest) ← readEscapedUnit rest
      let (body, rest) ← readStringBody steps rest
      some (c :: body, rest)
    | '\\' :: letter :: rest => do
      let c ← escapeLetter? letter
      let (body, rest) ← readStringBody steps rest
      some (c :: body, rest)
    | c :: rest =>
      if c.toNat < 0x20 || c == '\\' then none
      else do
        let (body, rest) ← readStringBody steps rest
        some (c :: body, rest)
    | [] => none

def readString (s : List Char) : Option (String × List Char) :=
  (readStringBody s.length s).map fun (body, rest) => (String.ofList body, rest)

/-- From here on, numbers round to no finite double. -/
def beyondFinite : Nat := 1 <<< 1024 - 1 <<< 970

def isFinite (significand : Nat) (exponent : Int) : Bool :=
  let size := (Nat.toDigits 10 significand).length + exponent
  if significand == 0 || size ≤ 300 then true
  else if size > 310 then false
  else if exponent ≥ 0 then significand * Nat.pow 10 exponent.toNat < beyondFinite
  else significand < beyondFinite * Nat.pow 10 (-exponent).toNat

/-- The digits of a number before the point: a zero stands alone. -/
def readWhole (s : List Char) : Option (List Char × List Char) :=
  match s with
  | '0' :: rest => if rest.head?.any Char.isDigit then none else some (['0'], rest)
  | _ => if s.head?.any Char.isDigit then some (s.span Char.isDigit) else none

def readFraction (s : List Char) : Option (List Char × List Char) :=
  match s with
  | '.' :: rest => if rest.head?.any Char.isDigit then some (rest.span Char.isDigit) else none
  | _ => some ([], s)

def readExponent (s : List Char) : Option (Int × List Char) :=
  match s with
  | 'e' :: rest | 'E' :: rest =>
    let (negative, rest) :=
      match rest with
      | '-' :: rest => (true, rest)
      | '+' :: rest => (false, rest)
      | _ => (false, rest)
    if rest.head?.any Char.isDigit then
      let (digits, rest) := rest.span Char.isDigit
      some (if negative then -(digitsValue digits : Int) else digitsValue digits, rest)
    else none
  | _ => some (0, s)

def readNumber (s : List Char) : Option (Value × List Char) := do
  let unsigned := match s with
    | '-' :: rest => rest
    | _ => s
  let (whole, rest) ← readWhole unsigned
  let (fraction, rest) ← readFraction rest
  let (exponent, rest) ← readExponent rest
  if isFinite (digitsValue (whole ++ fraction)) (exponent - fraction.length) then
    some (.number (String.ofList (s.take (s.length - rest.length))), rest)
  else none

/-- Items with commas between them, up to the closing character. The number bounds the items. -/
def readItems {α : Type} (item : List Char → Option (α × List Char)) (close : Char) :
    Nat → List Char → Option (List α × List Char)
  | 0, _ => none
  | steps + 1, s => do
    let (x, rest) ← item (skipSpace s)
    match skipSpace rest with
    | ',' :: rest =>
      let (xs, rest) ← readItems item close steps rest
      some (x :: xs, rest)
    | c :: rest => if c = close then some ([x], rest) else none
    | [] => none

/-- Items up to the closing character, or none at all. -/
def readList {α : Type} (item : List Char → Option (α × List Char)) (close : Char) (s : List Char) :
    Option (List α × List Char) :=
  match skipSpace s with
  | c :: rest => if c = close then some ([], rest) else readItems item close s.length s
  | [] => none

def readField (value : List Char → Option (Value × List Char)) (s : List Char) :
    Option ((String × Value) × List Char) :=
  match s with
  | '"' :: rest => do
    let (name, rest) ← readString rest
    match skipSpace rest with
    | ':' :: rest =>
      let (v, rest) ← value (skipSpace rest)
      some ((name, v), rest)
    | _ => none
  | _ => none

def readValue : Nat → List Char → Option (Value × List Char)
  | _, 'n' :: 'u' :: 'l' :: 'l' :: rest => some (.null, rest)
  | _, 't' :: 'r' :: 'u' :: 'e' :: rest => some (.boolean true, rest)
  | _, 'f' :: 'a' :: 'l' :: 's' :: 'e' :: rest => some (.boolean false, rest)
  | _, '"' :: rest => (readString rest).map fun (s, rest) => (.string s, rest)
  | depth + 1, '[' :: rest =>
    (readList (readValue depth) ']' rest).map fun (items, rest) => (.array items, rest)
  | depth + 1, '\x7b' :: rest =>
    (readList (readField (readValue depth)) '\x7d' rest).map fun (fields, rest) => (.object fields, rest)
  | _, s => readNumber s

def read (text : String) : Option Value := do
  let (v, rest) ← readValue maxDepth (skipSpace text.toList)
  if skipSpace rest = [] then some v else none

end ClientRegistry.Wire
