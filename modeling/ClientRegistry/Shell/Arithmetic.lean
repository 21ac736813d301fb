import ClientRegistry.Shell.Printing

/-!
# Arithmetic

Whole numbers, names of variables, the usual operators with their usual binding, and parentheses.
-/

set_option autoImplicit false

namespace ClientRegistry.Shell.Arithmetic

inductive Lexeme where
  | number (n : Int)
  | operator (text : String)
  deriving DecidableEq, Repr

def pairs : List String := ["==", "!=", "<=", ">=", "&&", "||", "<<", ">>"]

/-- The lexemes of a text, in which each name stands for its value. The number bounds the steps. -/
def lexemes (valueOf : String → Int) : Nat → List Char → List Lexeme
  | 0, _ => []
  | steps + 1, s =>
    match s with
    | [] => []
    | c :: rest =>
      if c.isWhitespace then lexemes valueOf steps rest
      else if c.isDigit then
        let (digits, after) := s.span isNameChar
        .number (argumentNumber (String.ofList digits)) :: lexemes valueOf steps after
      else if isNameStart c then
        let (name, after) := s.span isNameChar
        .number (valueOf (String.ofList name)) :: lexemes valueOf steps after
      else if pairs.any fun p => p.toList = s.take 2 then
        .operator (String.ofList (s.take 2)) :: lexemes valueOf steps (s.drop 2)
      else .operator c.toString :: lexemes valueOf steps rest

/-- The operators from those that bind least to those that bind most. -/
def levels : List (List String) :=
  [["||"], ["&&"], ["|"], ["^"], ["&"], ["==", "!="], ["<", ">", "<=", ">="], ["<<", ">>"], ["+", "-"],
    ["*", "/", "%"]]

def ofBool (b : Bool) : Int := if b then 1 else 0

/-- What an operator makes of two numbers; nothing is divided by zero. -/
def apply (operator : String) (a b : Int) : Option Int :=
  match operator with
  | "+" => some (a + b)
  | "-" => some (a - b)
  | "*" => some (a * b)
  | "/" => if b = 0 then none else some (a.tdiv b)
  | "%" => if b = 0 then none else some (a.tmod b)
  | "==" => some (ofBool (a = b))
  | "!=" => some (ofBool (a ≠ b))
  | "<" => some (ofBool (a < b))
  | ">" => some (ofBool (a > b))
  | "<=" => some (ofBool (a ≤ b))
  | ">=" => some (ofBool (a ≥ b))
  | "&&" => some (ofBool (a ≠ 0 && b ≠ 0))
  | "||" => some (ofBool (a ≠ 0 || b ≠ 0))
  | "<<" => some (a * Int.ofNat (1 <<< (b.toNat % 64)))
  | ">>" => some (a >>> (b.toNat % 64))
  | _ => none

mutual

def readLevel : Nat → List (List String) → List Lexeme → Option (Int × List Lexeme)
  | 0, _, _ => none
  | fuel + 1, [], ls => readUnit fuel ls
  | fuel + 1, level :: more, ls => do
    let (a, rest) ← readLevel fuel more ls
    readMore fuel level more a rest

def readMore : Nat → List String → List (List String) → Int → List Lexeme → Option (Int × List Lexeme)
  | 0, _, _, _, _ => none
  | fuel + 1, level, more, a, ls =>
    match ls with
    | .operator o :: rest =>
      if level.contains o then do
        let (b, rest) ← readLevel fuel more rest
        let c ← apply o a b
        readMore fuel level more c rest
      else some (a, ls)
    | _ => some (a, ls)

def readUnit : Nat → List Lexeme → Option (Int × List Lexeme)
  | 0, _ => none
  | fuel + 1, ls =>
    match ls with
    | .number n :: rest => some (n, rest)
    | .operator "-" :: rest => (readUnit fuel rest).map fun (n, rest) => (-n, rest)
    | .operator "+" :: rest => readUnit fuel rest
    | .operator "!" :: rest => (readUnit fuel rest).map fun (n, rest) => (ofBool (n = 0), rest)
    | .operator "(" :: rest => do
      let (n, rest) ← readLevel fuel levels rest
      match rest with
      | .operator ")" :: rest => some (n, rest)
      | _ => none
    | _ => none

end

def value? (valueOf : String → Int) (source : List Char) : Option Int :=
  match lexemes valueOf source.length source with
  | [] => some 0
  | ls =>
    match readLevel (16 * ls.length + 32) levels ls with
    | some (n, []) => some n
    | _ => none

end ClientRegistry.Shell.Arithmetic
