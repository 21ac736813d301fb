import ClientRegistry.Shell.Word

/-!
# Documents in a script

A command may get its input from the lines that follow it, up to a line that holds nothing but a
delimiter. The lines are taken out of the script before its commands are read. Where the delimiter
is quoted, nothing in them is expanded.
-/

set_option autoImplicit false

namespace ClientRegistry.Shell

def joinLines (lines : List (List Char)) : List Char := (lines.map (· ++ ['\n'])).flatten

/-- The lines before a delimiter, tabs at their start taken away if that is wanted, and the lines
after it. -/
def splitDocument (delimiter : List Char) (strips : Bool) : List (List Char) → List (List Char) × List (List Char)
  | [] => ([], [])
  | line :: rest =>
    let line := if strips then line.dropWhile (· = '\t') else line
    if line = delimiter then ([], rest)
    else if rest = [] && line = [] then ([], [])
    else
      let (inside, after) := splitDocument delimiter strips rest
      (line :: inside, after)

/-- Puts the lines that follow into the places where tokens ask for them. -/
def fillDocuments : List Token → List (List Char) → List Token × List (List Char)
  | .operator ['<', '<'] :: .word w :: rest, lines => fill false w rest lines
  | .operator ['<', '<', '-'] :: .word w :: rest, lines => fill true w rest lines
  | t :: rest, lines =>
    let (more, lines) := fillDocuments rest lines
    (t :: more, lines)
  | [], lines => ([], lines)
where
  fill (strips : Bool) (w : List Char) (rest : List Token) (lines : List (List Char)) :
      List Token × List (List Char) :=
    let delimiter := (parts w).flatMap fun p => match p with
      | .text s _ => s
      | _ => []
    let (inside, lines) := splitDocument delimiter strips lines
    let (more, lines) := fillDocuments rest lines
    (.document (joinLines inside) (w = delimiter) :: more, lines)

def readLines : Nat → Lexer → List (List Char) → Lexer
  | 0, s, _ => s
  | _, s, [] => s
  | _, s, [last] => s.read last
  | steps + 1, s, line :: rest =>
    let next := s.read (line ++ ['\n'])
    if next.nesting.frames = [] && next.tokens.head? = some .newline then
      let (filled, rest) := fillDocuments next.tokens.reverse rest
      readLines steps { next with tokens := filled.reverse } rest
    else readLines steps next rest

def readScript (source : List Char) : Lexer :=
  readLines (source.length + 1) Lexer.start (source.splitOn '\n')

end ClientRegistry.Shell
