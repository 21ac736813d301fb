import ClientRegistry.Shell.Session
import ClientRegistry.Text.Digits

/-!
# Printing

What `echo` and `printf` write. A backslash in their texts stands for a control character or for a
byte by its octal number, so what they write need not be text.
-/

set_option autoImplicit false

namespace ClientRegistry.Shell

def charBytes (c : Char) : List UInt8 := c.toString.toUTF8.toList

def controlByte? : Char → Option UInt8
  | 'a' => some 7
  | 'b' => some 8
  | 'f' => some 12
  | 'n' => some 10
  | 'r' => some 13
  | 't' => some 9
  | 'v' => some 11
  | '\\' => some 92
  | _ => none

def isOctal (c : Char) : Bool := '0' ≤ c && c ≤ '7'

def octalValue (digits : List Char) : Nat := digits.foldl (fun n c => n * 8 + (c.toNat - '0'.toNat)) 0

/-- The bytes of a text in which backslashes count, and whether it ends what is printed. The
number bounds the steps. -/
def escapedBytes : Nat → List Char → List UInt8 × Bool
  | 0, _ => ([], false)
  | steps + 1, s =>
    match s with
    | [] => ([], false)
    | '\\' :: 'c' :: _ => ([], true)
    | '\\' :: '0' :: rest =>
      let digits := (rest.take 3).takeWhile isOctal
      let (more, ends) := escapedBytes steps (rest.drop digits.length)
      ((octalValue digits).toUInt8 :: more, ends)
    | '\\' :: c :: rest =>
      let (more, ends) := escapedBytes steps rest
      match controlByte? c with
      | some b => (b :: more, ends)
      | none => (92 :: charBytes c ++ more, ends)
    | c :: rest =>
      let (more, ends) := escapedBytes steps rest
      (charBytes c ++ more, ends)

def echoBytes (args : List String) : List UInt8 :=
  let (newline, words) := match args with
    | "-n" :: rest => (false, rest)
    | _ => (true, args)
  let text := (" ".intercalate words).toList
  let (bytes, ends) := escapedBytes (text.length + 1) text
  if newline && !ends then bytes ++ [10] else bytes

structure Place where
  left : Bool
  zeros : Bool
  width : Nat
  precision : Option Nat

def Place.fit (p : Place) (bytes : List UInt8) : List UInt8 :=
  let missing := p.width - bytes.length
  if p.left then bytes ++ List.replicate missing 32
  else if p.zeros then
    match bytes with
    | 45 :: rest => 45 :: List.replicate missing 48 ++ rest
    | _ => List.replicate missing 48 ++ bytes
  else List.replicate missing 32 ++ bytes

def argumentNumber (s : String) : Int :=
  let (negative, body) := match s.toList with
    | '-' :: rest => (true, rest)
    | '+' :: rest => (false, rest)
    | rest => (false, rest)
  let n := match body with
    | '\'' :: c :: _ | '"' :: c :: _ => c.toNat
    | '0' :: 'x' :: ds | '0' :: 'X' :: ds =>
      ((ds.takeWhile fun c => (Text.hexDigit? c).isSome).filterMap Text.hexDigit?).foldl (fun n d => n * 16 + d) 0
    | '0' :: ds => octalValue (ds.takeWhile isOctal)
    | ds => Text.digitsValue (ds.takeWhile Char.isDigit)
  if negative then -(n : Int) else n

def digitsText (base : Nat) (n : Nat) : String := String.ofList (Nat.toDigits base n)

def withPrecision (precision : Option Nat) (text : String) : String :=
  String.ofList (List.replicate (precision.getD 1 - text.length) '0') ++ text

/-- The bytes of an argument for a conversion letter, and whether they end what is printed. -/
def conversion (letter : Char) (p : Place) (arg : String) : List UInt8 × Bool :=
  let n := argumentNumber arg
  let unsigned := if n < 0 then (UInt64.size + n).toNat else n.toNat
  let ofText (s : String) : List UInt8 × Bool := (p.fit s.toUTF8.toList, false)
  match letter with
  | 's' => ((Place.fit { p with zeros := false }) (match p.precision with
      | some k => arg.toUTF8.toList.take k
      | none => arg.toUTF8.toList), false)
  | 'b' =>
    let (bytes, ends) := escapedBytes (arg.length + 1) arg.toList
    (p.fit bytes, ends)
  | 'c' => (p.fit (arg.toUTF8.toList.take 1), false)
  | 'd' | 'i' =>
    ofText ((if n < 0 then "-" else "") ++ withPrecision p.precision (digitsText 10 n.natAbs))
  | 'u' => ofText (withPrecision p.precision (digitsText 10 unsigned))
  | 'o' => ofText (withPrecision p.precision (digitsText 8 unsigned))
  | 'x' => ofText (withPrecision p.precision (digitsText 16 unsigned))
  | 'X' => ofText (withPrecision p.precision ((digitsText 16 unsigned).map Char.toUpper))
  | _ => ([], false)

/-- A place as the format writes it, and the text after it. A star takes a number from the
arguments. -/
def readPlace (s : List Char) (args : List String) : Place × List Char × List String :=
  let flags := s.takeWhile fun c => "-0+ #".toList.contains c
  let s := s.drop flags.length
  let (width, s, args) := match s with
    | '*' :: rest => ((args.head?.map argumentNumber).getD 0 |>.toNat, rest, args.tail)
    | _ => (Text.digitsValue (s.takeWhile Char.isDigit), s.dropWhile Char.isDigit, args)
  let (precision, s, args) := match s with
    | '.' :: '*' :: rest => (some ((args.head?.map argumentNumber).getD 0).toNat, rest, args.tail)
    | '.' :: rest => (some (Text.digitsValue (rest.takeWhile Char.isDigit)), rest.dropWhile Char.isDigit, args)
    | _ => (none, s, args)
  (⟨flags.contains '-', flags.contains '0', width, precision⟩, s, args)

/-- Goes through a format once: the bytes, the arguments that are left, and whether the printing
ends. The number bounds the steps. -/
def formatOnce : Nat → List Char → List String → List UInt8 × List String × Bool
  | 0, _, args => ([], args, false)
  | steps + 1, s, args =>
    match s with
    | [] => ([], args, false)
    | '%' :: '%' :: rest =>
      let (more, args, ends) := formatOnce steps rest args
      (37 :: more, args, ends)
    | '%' :: rest =>
      let (place, rest, args) := readPlace rest args
      match rest with
      | [] => ([], args, true)
      | letter :: rest =>
        let (bytes, ends) := conversion letter place (args.head?.getD "")
        if ends then (bytes, args.tail, true)
        else
          let (more, args, ends) := formatOnce steps rest args.tail
          (bytes ++ more, args, ends)
    | '\\' :: c :: rest =>
      let digits := ((c :: rest).take 3).takeWhile isOctal
      if digits ≠ [] then
        let (more, args, ends) := formatOnce steps ((c :: rest).drop digits.length) args
        ((octalValue digits).toUInt8 :: more, args, ends)
      else
        let (more, args, ends) := formatOnce steps rest args
        match controlByte? c with
        | some b => (b :: more, args, ends)
        | none => ((if c = '"' || c = '\'' then [] else [92]) ++ charBytes c ++ more, args, ends)
    | c :: rest =>
      let (more, args, ends) := formatOnce steps rest args
      (charBytes c ++ more, args, ends)

/-- What `printf` writes: the format is used again as long as it takes arguments and some are
left. The number bounds the uses. -/
def formatAll (format : List Char) : Nat → List String → List UInt8
  | 0, _ => []
  | uses + 1, args =>
    let (bytes, left, ends) := formatOnce (format.length + 1) format args
    if ends || left.isEmpty || left.length = args.length then bytes else bytes ++ formatAll format uses left

def printfBytes (format : String) (args : List String) : List UInt8 :=
  formatAll format.toList (args.length + 1) args

end ClientRegistry.Shell
