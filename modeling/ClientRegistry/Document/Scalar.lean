import ClientRegistry.Document.Lexical

/-!
# Numbers, dates and times

A value that is neither quoted nor bracketed is a word. Each kind of word has its own form: no
number starts with a zero that could be left out, an underscore stands only between digits, and
dates and times are in range.
-/

set_option autoImplicit false

namespace ClientRegistry.Document

def digits? (isDigit : Char → Bool) : List Char → Option (List Char)
  | [] => none
  | [c] => if isDigit c then some [c] else none
  | c :: '_' :: rest => if isDigit c then (digits? isDigit rest).map (c :: ·) else none
  | c :: rest => if isDigit c then (digits? isDigit rest).map (c :: ·) else none

/-- The digits of a whole number without a zero that could be left out. -/
def wholeDigits? (s : List Char) : Option (List Char) :=
  match digits? Char.isDigit s with
  | some ['0'] => some ['0']
  | some ('0' :: _) => none
  | digits => digits

/-- The number that digits write in a base. -/
def natOf? (base : Nat) (s : List Char) : Option Nat := do
  let ds ← digits? (fun c => (Text.hexDigit? c).any (· < base)) s
  let values ← ds.mapM Text.hexDigit?
  some (values.foldl (fun n d => n * base + d) 0)

/-- Whether the number starts with a minus, and what follows its sign. -/
def unsign : List Char → Bool × List Char
  | '-' :: rest => (true, rest)
  | '+' :: rest => (false, rest)
  | s => (false, s)

def signed (negative : Bool) (n : Nat) : Int := if negative then -(Int.ofNat n) else Int.ofNat n

def fitsUnsigned (bits : Nat) (n : Int) : Bool := 0 ≤ n && n < Int.ofNat (1 <<< bits)

def fitsSigned (bits : Nat) (n : Int) : Bool :=
  -Int.ofNat (1 <<< (bits - 1)) ≤ n && n < Int.ofNat (1 <<< (bits - 1))

/-- The range of the numbers that can be told apart: those of 128 bits, with a sign or without. -/
def inRange (n : Int) : Bool := fitsSigned 128 n || fitsUnsigned 128 n

def integer? (s : List Char) : Option Int :=
  let n := match s with
    | '0' :: 'x' :: rest => (natOf? 16 rest).map Int.ofNat
    | '0' :: 'o' :: rest => (natOf? 8 rest).map Int.ofNat
    | '0' :: 'b' :: rest => (natOf? 2 rest).map Int.ofNat
    | _ =>
      let (negative, body) := unsign s
      (wholeDigits? body).map fun ds => signed negative (Text.digitsValue ds)
  n.filter inRange

/-- The double nearest to `digits · 10 ^ exponent`, if it is finite. -/
def nearestFloat? (digits : Nat) (exponent : Int) : Option Float :=
  let size := (Nat.toDigits 10 digits).length + exponent
  if digits = 0 || size < -400 then some 0.0
  else if size > 400 then none
  else
    let x := if exponent ≥ 0 then Float.ofScientific digits false exponent.toNat
      else Float.ofScientific digits true (-exponent).toNat
    if x.isInf then none else some x

def exponent? (s : List Char) : Option Int :=
  let (negative, body) := unsign s
  (digits? Char.isDigit body).map fun ds => signed negative (Text.digitsValue ds)

def unsignedFloat? (s : List Char) : Option Float := do
  let isMark (c : Char) : Bool := c == 'e' || c == 'E'
  let (mantissa, tail) := s.span fun c => !isMark c
  let (whole, fraction) := mantissa.span (· != '.')
  if fraction = [] && tail = [] then none
  else
    let whole ← wholeDigits? whole
    let fraction ← match fraction with
      | [] => some []
      | _ :: ds => digits? Char.isDigit ds
    let exponent ← match tail with
      | [] => some 0
      | _ :: e => exponent? e
    nearestFloat? (Text.digitsValue (whole ++ fraction)) (exponent - Int.ofNat fraction.length)

def float? (s : List Char) : Option Float :=
  let (negative, body) := unsign s
  let x :=
    if body = "inf".toList then some (1.0 / 0.0)
    else if body = "nan".toList then some (0.0 / 0.0)
    else unsignedFloat? body
  x.map fun x => if negative then -x else x

def twoDigits? : List Char → Option Nat
  | [a, b] => if a.isDigit && b.isDigit then some (Text.digitsValue [a, b]) else none
  | _ => none

def daysInMonth (year month : Nat) : Nat :=
  if month = 2 then (if year % 4 = 0 && (year % 100 != 0 || year % 400 = 0) then 29 else 28)
  else if month ∈ [4, 6, 9, 11] then 30
  else 31

def isDate (s : List Char) : Bool :=
  match s.splitOn '-' with
  | [year, month, day] =>
    year.length == 4 && year.all Char.isDigit &&
      match twoDigits? month, twoDigits? day with
      | some m, some d => 1 ≤ m && m ≤ 12 && 1 ≤ d && d ≤ daysInMonth (Text.digitsValue year) m
      | _, _ => false
  | _ => false

/-- Seconds, with a fraction or without; sixty is a leap second. -/
def isSeconds (s : List Char) : Bool :=
  match s.span (· != '.') with
  | (seconds, []) => (twoDigits? seconds).any (· ≤ 60)
  | (seconds, _ :: fraction) =>
    (twoDigits? seconds).any (· ≤ 60) && fraction != [] && fraction.all Char.isDigit

def isTime (s : List Char) : Bool :=
  match s.splitOn ':' with
  | [hour, minute] => (twoDigits? hour).any (· ≤ 23) && (twoDigits? minute).any (· ≤ 59)
  | [hour, minute, second] =>
    (twoDigits? hour).any (· ≤ 23) && (twoDigits? minute).any (· ≤ 59) && isSeconds second
  | _ => false

/-- A distance from universal time, after its sign: at most a day. -/
def isOffset (s : List Char) : Bool :=
  match s.splitOn ':' with
  | [hour, minute] =>
    match twoDigits? hour, twoDigits? minute with
    | some h, some m => h * 60 + m ≤ 24 * 60
    | _, _ => false
  | _ => false

/-- A time that may be followed by its distance from universal time. -/
def isTimeWithOffset (s : List Char) : Bool :=
  match s.span fun c => c != 'z' && c != 'Z' && c != '+' && c != '-' with
  | (time, []) => isTime time
  | (time, ['z']) | (time, ['Z']) => isTime time
  | (time, sign :: offset) => (sign == '+' || sign == '-') && isTime time && isOffset offset

def isMoment (s : List Char) : Bool :=
  isDate s || isTime s ||
    (isDate (s.take 10) &&
      match s.drop 10 with
      | mark :: rest => (mark == 'T' || mark == 't' || mark == ' ') && isTimeWithOffset rest
      | [] => false)

def isWordChar (c : Char) : Bool := c.isAlphanum || c == '_' || c == '-' || c == '+' || c == '.' || c == ':'

/-- The word at the start of a text. A date and a time may have one blank between them. -/
def splitWord (s : List Char) : List Char × List Char :=
  match s.span isWordChar with
  | (word, ' ' :: c :: rest) =>
    if isDate word && c.isDigit then
      let (more, rest) := (c :: rest).span isWordChar
      (word ++ ' ' :: more, rest)
    else (word, ' ' :: c :: rest)
  | split => split

def wordValue? (word : List Char) : Option Value :=
  if word = "true".toList then some (.boolean true)
  else if word = "false".toList then some (.boolean false)
  else if isMoment word then some .moment
  else
    match integer? word with
    | some n => some (.integer n)
    | none => (float? word).map .float

end ClientRegistry.Document
