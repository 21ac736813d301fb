/-!
# Tokens of a command line

A shell reads a command line character by character. Blanks and operators that are not quoted end
a word; a backslash takes the meaning from the next character; text in single quotes means itself;
a substitution reaches to the bracket that closes it. A word keeps its quotes, which are taken
away after it has been expanded.

Three corners are not read as a shell reads them. A single quote in the braces of a parameter opens
quotes even inside of double quotes; a backslash before the end of a line does not join the two
halves of an operator; and a pattern's parenthesis in a `case` within a substitution closes the
substitution.
-/

set_option autoImplicit false

namespace ClientRegistry.Shell

/-- What a character stands in, from the inside to the outside. -/
inductive Frame where
  | single
  | double
  | backquote
  /-- From `$(` to its closing parenthesis. -/
  | substitution
  | parenthesis
  /-- From a dollar and a brace to the closing brace. -/
  | brace
  deriving DecidableEq, Repr

/-- The frames around the next character, and what the character before it asks for. -/
structure Nesting where
  frames : List Frame
  /-- A backslash takes the meaning from the next character. -/
  escaped : Bool
  /-- A dollar gives a meaning to a bracket. -/
  dollar : Bool
  deriving DecidableEq, Repr

namespace Nesting

def none : Nesting := ⟨[], false, false⟩

def push (n : Nesting) (f : Frame) : Nesting := ⟨f :: n.frames, false, false⟩

def pop (n : Nesting) : Nesting := ⟨n.frames.tail, false, false⟩

def plain (n : Nesting) : Nesting := ⟨n.frames, false, false⟩

def afterDollar (n : Nesting) (c : Char) : Option Nesting :=
  if n.dollar && c = '(' then some (n.push .substitution)
  else if n.dollar && c = '\x7b' then some (n.push .brace)
  else Option.none

def outside (n : Nesting) (c : Char) : Nesting :=
  if c = '\\' then ⟨n.frames, true, false⟩
  else if c = '\'' then n.push .single
  else if c = '"' then n.push .double
  else if c = '\x60' then n.push .backquote
  else if c = '$' then ⟨n.frames, false, !n.dollar⟩
  else n.plain

/-- The frames around the character after `c`. -/
def step (n : Nesting) (c : Char) : Nesting :=
  if n.escaped then n.plain
  else
    match n.afterDollar c with
    | some inner => inner
    | Option.none =>
      match n.frames.head? with
      | some .single => if c = '\'' then n.pop else n
      | some .double =>
        if c = '"' then n.pop
        else if c = '\'' then n.plain
        else n.outside c
      | some .backquote =>
        if c = '\x60' then n.pop
        else if c = '\\' then ⟨n.frames, true, false⟩
        else n.plain
      | some .substitution | some .parenthesis =>
        if c = ')' then n.pop
        else if c = '(' then n.push .parenthesis
        else n.outside c
      | some .brace => if c = '\x7d' then n.pop else n.outside c
      | Option.none => n.outside c

end Nesting

inductive Token where
  /-- A word with its quotes. -/
  | word (raw : List Char)
  | operator (text : List Char)
  | newline
  /-- The number of a file before an operator that redirects it. -/
  | descriptor (digits : List Char)
  /-- Lines that are an input, in which something may be expanded. -/
  | document (text : List Char) (expands : Bool)
  deriving DecidableEq, Repr

/-- How many lines end in a token. -/
def Token.lineCount : Token → Nat
  | newline => 1
  | word raw => raw.count '\n'
  | document text _ => text.count '\n' + 1
  | operator _ | descriptor _ => 0

def linesOf (ts : List Token) : Nat := ts.foldl (fun n t => n + t.lineCount) 0

def operators : List String :=
  [";", "&", "|", "<", ">", "(", ")", "&&", "||", ";;", "<<", ">>", "<&", ">&", "<>", ">|", "<<-"]

def isOperator (text : List Char) : Bool := operators.any fun o => o.toList = text

def isOperatorStart (c : Char) : Bool := ";&|<>()".toList.contains c

def isBlank (c : Char) : Bool := c = ' ' || c = '\t'

structure Lexer where
  /-- The tokens read, the last one first. -/
  tokens : List Token
  /-- The word being read, its last character first. -/
  word : List Char
  /-- The operator being read. -/
  operator : List Char
  nesting : Nesting
  comment : Bool
  deriving DecidableEq, Repr

namespace Lexer

def start : Lexer := ⟨[], [], [], Nesting.none, false⟩

def endWord (s : Lexer) : Lexer :=
  if s.word = [] then s else { s with tokens := .word s.word.reverse :: s.tokens, word := [] }

/-- Ends the word before an operator, and takes it for a file's number where it is one. -/
def endWordBefore (s : Lexer) (c : Char) : Lexer :=
  if s.word ≠ [] && s.word.all Char.isDigit && (c = '<' || c = '>') then
    { s with tokens := .descriptor s.word.reverse :: s.tokens, word := [] }
  else s.endWord

def endOperator (s : Lexer) : Lexer :=
  if s.operator = [] then s else { s with tokens := .operator s.operator :: s.tokens, operator := [] }

def extend (s : Lexer) (c : Char) : Lexer :=
  { s with word := c :: s.word, nesting := s.nesting.step c }

def fresh (s : Lexer) (c : Char) : Lexer :=
  if s.nesting.dollar && c = '(' then s.extend c
  else if isBlank c then { s.endWord with nesting := s.nesting.plain }
  else if c = '\n' then
    { s.endWord with tokens := .newline :: s.endWord.tokens, nesting := s.nesting.plain }
  else if c = '#' && s.word = [] then { s with comment := true }
  else if isOperatorStart c then
    { s.endWordBefore c with operator := [c], nesting := s.nesting.plain }
  else s.extend c

/-- Reads one character. A backslash before the end of a line takes both away. -/
def step (s : Lexer) (c : Char) : Lexer :=
  if s.comment then
    if c = '\n' then { s with comment := false, tokens := .newline :: s.tokens } else s
  else if s.nesting.escaped then
    if c = '\n' then { s with word := s.word.tail, nesting := s.nesting.plain } else s.extend c
  else if s.nesting.frames ≠ [] then s.extend c
  else if s.operator ≠ [] then
    if isOperator (s.operator ++ [c]) then { s with operator := s.operator ++ [c] }
    else s.endOperator.fresh c
  else s.fresh c

def read (s : Lexer) (text : List Char) : Lexer := text.foldl step s

/-- No quote, substitution, escape or comment is open. -/
def isComplete (s : Lexer) : Bool :=
  s.nesting.frames = [] && !s.nesting.escaped && !s.comment

/-- The tokens after the end of the text, where no quote and no substitution is open. -/
def finish? (s : Lexer) : Option (List Token) :=
  if s.nesting.frames = [] then some s.endOperator.endWord.tokens.reverse else none

/-- All tokens before a quote or substitution that is still open. -/
def closedTokens (s : Lexer) : List Token := s.endOperator.tokens.reverse

def openMessage (s : Lexer) : String :=
  "Syntax error: " ++
    match s.nesting.frames.head? with
    | some .backquote => "EOF in backquote substitution"
    | some .substitution | some .parenthesis => "end of file unexpected (expecting \")\")"
    | some .brace => "Missing '\x7d'"
    | _ => "Unterminated quoted string"

theorem read_append (s : Lexer) (a b : List Char) : s.read (a ++ b) = (s.read a).read b := by
  simp [read]

end Lexer

/-- The tokens of a text; none where a quote or substitution is left open. -/
def tokens? (text : String) : Option (List Token) := (Lexer.start.read text.toList).finish?

end ClientRegistry.Shell
