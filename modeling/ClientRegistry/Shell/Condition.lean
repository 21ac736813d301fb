import ClientRegistry.FileTree.Lookup
import ClientRegistry.Text.Digits

/-!
# Conditions

What a script can ask: how texts and numbers compare, what a file is, and combinations of these.
`-a` binds before `-o`, and `!` before both. A word with the look of an operator is one only where
its operands are there; the number of words decides in the short conditions.
-/

set_option autoImplicit false

namespace ClientRegistry.Shell

/-- Why a condition has no answer. -/
inductive ConditionFault where
  | illegalNumber (text : String)
  | unexpectedOperator (word : String)
  | argumentExpected (operator : String)
  | closingExpected
  | closingBracketExpected
  deriving DecidableEq, Repr

def ConditionFault.message : ConditionFault → String
  | illegalNumber text => "Illegal number: " ++ text
  | unexpectedOperator word => (if word = "" then "" else word ++ ": ") ++ "unexpected operator"
  | argumentExpected operator => operator ++ ": argument expected"
  | closingExpected => "closing paren expected"
  | closingBracketExpected => "missing ]"

namespace Condition

/-! ## Comparing -/

/-- A number in the range of 64 bits with a sign; blanks may stand around it. -/
def number (text : String) : Except ConditionFault Int :=
  let isSpace (c : Char) := " \t\n\x0b\x0c\r".toList.contains c
  let (negative, body) := match text.toList.dropWhile isSpace with
    | '-' :: rest => (true, rest)
    | '+' :: rest => (false, rest)
    | rest => (false, rest)
  let digits := body.takeWhile Char.isDigit
  let value := if negative then -Int.ofNat (Text.digitsValue digits) else Int.ofNat (Text.digitsValue digits)
  if digits ≠ [] && (body.dropWhile Char.isDigit).all isSpace && Int64.minValue.toInt ≤ value
      && value ≤ Int64.maxValue.toInt then .ok value
  else .error (.illegalNumber text)

def unaryOperators : List String :=
  ["-r", "-w", "-x", "-e", "-f", "-d", "-c", "-b", "-p", "-u", "-g", "-k", "-s", "-t", "-z", "-n", "-h",
    "-O", "-G", "-L", "-S"]

def binaryOperators : List String :=
  ["=", "!=", "<", ">", "-eq", "-ne", "-ge", "-gt", "-le", "-lt", "-nt", "-ot", "-ef"]

def isLink (t : FileTree) (dir : Location) (p : Path) : Bool :=
  match t.resolveEntry dir p with
  | .ok loc =>
    match t.node? loc with
    | some (.link _) => true
    | _ => false
  | .error _ => false

/-- Whether a text or the file it names has the property that an operator asks for. -/
def property (t : FileTree) (dir : Location) (operator operand : String) : Except ConditionFault Bool :=
  let p : Path := ⟨operand⟩
  match operator with
  | "-n" => .ok (operand ≠ "")
  | "-z" => .ok (operand = "")
  | "-t" => (number operand).map fun _ => false
  | "-L" | "-h" => .ok (isLink t dir p)
  | "-d" | "-x" => .ok (t.isDirectoryAt dir p)
  | "-f" => .ok ((t.contentAt dir p).toBool)
  | "-s" => .ok (t.isDirectoryAt dir p || (t.contentAt dir p).toOption.any fun c => c.size > 0)
  | "-b" | "-c" | "-p" | "-u" | "-g" | "-k" | "-S" => .ok false
  | _ => .ok (t.pathExists dir p)

def sameFile (t : FileTree) (dir : Location) (a b : Path) : Bool :=
  match t.resolve dir a, t.resolve dir b with
  | .ok x, .ok y => x = y
  | _, _ => false

/-- Files have no times, so that none is newer than another. -/
def comparison (t : FileTree) (dir : Location) (a operator b : String) : Except ConditionFault Bool := do
  match operator with
  | "=" => .ok (a = b)
  | "!=" => .ok (a ≠ b)
  | "<" => .ok (a < b)
  | ">" => .ok (b < a)
  | "-eq" => .ok ((← number a) = (← number b))
  | "-ne" => .ok ((← number a) ≠ (← number b))
  | "-ge" => .ok ((← number b) ≤ (← number a))
  | "-gt" => .ok ((← number b) < (← number a))
  | "-le" => .ok ((← number a) ≤ (← number b))
  | "-lt" => .ok ((← number a) < (← number b))
  | "-ef" => .ok (sameFile t dir ⟨a⟩ ⟨b⟩)
  | _ => .ok false

/-! ## Reading -/

inductive Role where
  | negation
  | conjunction
  | disjunction
  | opening
  | closing
  | property
  | operand
  deriving DecidableEq, Repr

/-- Whether an operator before these words lacks its operand, or is one itself. -/
def isOperandBefore : List String → Bool
  | [] => true
  | [_] => false
  | operator :: _ :: _ => binaryOperators.contains operator

def role? : List String → Option Role
  | [] => none
  | "!" :: _ => some .negation
  | "-a" :: _ => some .conjunction
  | "-o" :: _ => some .disjunction
  | "(" :: rest => some (if rest = [] then .operand else .opening)
  | ")" :: _ => some .closing
  | word :: rest =>
    some (if unaryOperators.contains word && !isOperandBefore rest then .property else .operand)

/-- A text, a comparison or a property, and the words from the last one that belongs to it. -/
def readSimple (t : FileTree) (dir : Location) (words : List String) :
    Except ConditionFault (Bool × List String) :=
  match words with
  | [] => .ok (false, [])
  | [a] => .ok (a ≠ "", [a])
  | a :: operator :: rest =>
    if role? words = some .property then
      (property t dir a operator).map fun x => (x, operator :: rest)
    else if binaryOperators.contains operator then
      if rest = [] then .error (.argumentExpected operator)
      else (comparison t dir a operator (rest.head?.getD "")).map fun x => (x, rest)
    else .ok (a ≠ "", a :: operator :: rest)

mutual

def readEither (t : FileTree) (dir : Location) :
    Nat → List String → Except ConditionFault (Bool × List String)
  | 0, _ => .error .closingExpected
  | fuel + 1, words => do
    let (a, last) ← readBoth t dir fuel words
    if role? last.tail = some .disjunction then
      let (b, last) ← readEither t dir fuel (last.drop 2)
      .ok (a || b, last)
    else .ok (a, last)

def readBoth (t : FileTree) (dir : Location) :
    Nat → List String → Except ConditionFault (Bool × List String)
  | 0, _ => .error .closingExpected
  | fuel + 1, words => do
    let (a, last) ← readNegated t dir fuel words
    if role? last.tail = some .conjunction then
      let (b, last) ← readBoth t dir fuel (last.drop 2)
      .ok (a && b, last)
    else .ok (a, last)

def readNegated (t : FileTree) (dir : Location) :
    Nat → List String → Except ConditionFault (Bool × List String)
  | 0, _ => .error .closingExpected
  | fuel + 1, words =>
    match role? words with
    | some .negation =>
      if words.tail = [] then .ok (true, words)
      else do
        let (a, last) ← readNegated t dir fuel words.tail
        .ok (!a, last)
    | some .opening =>
      if role? words.tail = some .closing then .ok (false, words.tail)
      else do
        let (a, last) ← readEither t dir fuel words.tail
        if role? last.tail = some .closing then .ok (a, last.tail) else .error .closingExpected
    | _ => readSimple t dir words

end

/-- The answer to words that are read from the left to the right. -/
def readAll (t : FileTree) (dir : Location) (negated : Bool) (words : List String) :
    Except ConditionFault Bool := do
  let (a, last) ← readEither t dir (3 * words.length + 3) words
  match last with
  | word :: _ :: _ => .error (.unexpectedOperator word)
  | _ => .ok (negated != a)

/-- The answer to three words: a comparison, if the one in the middle can be its operator. -/
def ofThree (t : FileTree) (dir : Location) (negated : Bool) (a b c : String) :
    Except ConditionFault Bool :=
  if binaryOperators.contains b then (comparison t dir a b c).map fun x => negated != x
  else if a = "(" && c = ")" then readAll t dir negated [b]
  else if a = "!" then readAll t dir true [b, c]
  else readAll t dir negated [a, b, c]

def holds (t : FileTree) (dir : Location) : List String → Except ConditionFault Bool
  | [] => .ok false
  | [a, b, c] => ofThree t dir false a b c
  | [a, b, c, d] =>
    if a = "(" && d = ")" then readAll t dir false [b, c]
    else if a = "!" then ofThree t dir true b c d
    else readAll t dir false [a, b, c, d]
  | words => readAll t dir false words

end Condition

end ClientRegistry.Shell
