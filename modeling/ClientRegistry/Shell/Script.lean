import ClientRegistry.Shell.Word
import ClientRegistry.Text.Digits

/-!
# Scripts

A script is a list of commands. Commands are read from tokens; what cannot be read makes the rest of
the script useless, but the commands before it count.
-/

set_option autoImplicit false

namespace ClientRegistry.Shell

inductive RedirectKind where
  | input
  | output
  | append
  | both
  /-- The file is another of the command's files. -/
  | duplicate
  /-- The input stands in the script itself. -/
  | document (expands : Bool)
  deriving DecidableEq, Repr

structure Redirect where
  descriptor : Nat
  kind : RedirectKind
  target : List Char
  deriving DecidableEq, Repr

inductive Command where
  | nothing
  | simple (assignments : List (String × List Char)) (words : List (List Char)) (redirects : List Redirect)
  | pipeline (commands : List Command)
  | negated (c : Command)
  | both (first second : Command)
  | either (first second : Command)
  | sequence (first second : Command)
  /-- What runs beside the session. -/
  | background (c : Command)
  | subshell (body : Command)
  | conditional (test body otherwise : Command)
  | loop (whileFails : Bool) (test body : Command)
  /-- Without words the loop goes over the arguments. -/
  | each (name : String) (words : Option (List (List Char))) (body : Command)
  | select (word : List Char) (cases : List (List (List Char) × Command))
  | define (name : String) (body : Command)
  | redirected (body : Command) (redirects : List Redirect)
  deriving Inhabited

inductive SyntaxFault where
  /-- The first of the tokens, or the end, does not fit here; what was expected may be known. -/
  | unexpected (rest : List Token) (expected : Option String)
  | loopVariable (rest : List Token)
  deriving DecidableEq, Repr

/-- What reading a part of a script gives: the part and the tokens that are left. -/
abbrev Read (α : Type) := List Token → Except SyntaxFault (α × List Token)

def reservedWords : List String :=
  ["!", "case", "do", "done", "elif", "else", "esac", "fi", "for", "if", "in", "then", "until", "while",
    "\x7b", "\x7d"]

def quotedToken (text : String) : String := "\"" ++ text ++ "\""

def nextName : List Token → String
  | [] => "end of file"
  | .newline :: _ => "newline"
  | .descriptor _ :: _ | .document _ _ :: _ => "redirection"
  | .operator o :: _ =>
    if o.any fun c => c = '<' || c = '>' then "redirection" else quotedToken (String.ofList o)
  | .word raw :: _ =>
    if reservedWords.contains (String.ofList raw) then quotedToken (String.ofList raw) else "word"

namespace SyntaxFault

/-- The tokens from the one on that does not fit. -/
def rest : SyntaxFault → List Token
  | unexpected rest _ => rest
  | loopVariable rest => rest

def message : SyntaxFault → String
  | unexpected rest none => "Syntax error: " ++ nextName rest ++ " unexpected"
  | unexpected rest (some text) =>
    "Syntax error: " ++ nextName rest ++ " unexpected (expecting " ++ quotedToken text ++ ")"
  | loopVariable _ => "Syntax error: Bad for loop variable"

end SyntaxFault

def unexpected {α : Type} (rest : List Token) : Except SyntaxFault α := .error (.unexpected rest none)

def isWordToken (text : String) : Token → Bool
  | .word raw => raw = text.toList
  | _ => false

def isOperatorToken (text : String) : Token → Bool
  | .operator o => o = text.toList
  | _ => false

def expectWord (text : String) : Read Unit
  | t :: rest =>
    if isWordToken text t then .ok ((), rest) else .error (.unexpected (t :: rest) (some text))
  | [] => .error (.unexpected [] (some text))

def expectOperator (text : String) : Read Unit
  | t :: rest =>
    if isOperatorToken text t then .ok ((), rest) else .error (.unexpected (t :: rest) (some text))
  | [] => .error (.unexpected [] (some text))

def skipNewlines (ts : List Token) : List Token := ts.dropWhile (· == .newline)

/-- Words that end a list of commands where a command could start. -/
def isClosingWord (t : Token) : Bool :=
  ["then", "else", "elif", "fi", "do", "done", "esac", "\x7d"].any fun w => isWordToken w t

def endsList : List Token → Bool
  | [] => true
  | t :: _ => isClosingWord t || isOperatorToken ")" t || isOperatorToken ";;" t

def redirectKind? : String → Option (RedirectKind × Nat)
  | "<" => some (.input, 0)
  | ">" | ">|" => some (.output, 1)
  | ">>" => some (.append, 1)
  | "<>" => some (.both, 0)
  | ">&" => some (.duplicate, 1)
  | "<&" => some (.duplicate, 0)
  | _ => none

/-- A redirection, with the number of the file before it or without; none where there is none. -/
def readRedirect (ts : List Token) : Except SyntaxFault (Option (Redirect × List Token)) :=
  match ts with
  | .document text expands :: rest => .ok (some (⟨0, .document expands, text⟩, rest))
  | .descriptor ds :: .operator o :: rest =>
    match redirectKind? (String.ofList o), rest with
    | some (kind, _), .word w :: rest => .ok (some (⟨Text.digitsValue ds, kind, w⟩, rest))
    | _, _ => unexpected rest
  | .operator o :: rest =>
    match redirectKind? (String.ofList o), rest with
    | some (kind, descriptor), .word w :: rest => .ok (some (⟨descriptor, kind, w⟩, rest))
    | some _, _ => unexpected rest
    | none, _ => .ok none
  | _ => .ok none

def readRedirects : Nat → Read (List Redirect)
  | 0, ts => .ok ([], ts)
  | steps + 1, ts => do
    match ← readRedirect ts with
    | none => .ok ([], ts)
    | some (r, rest) =>
      let (more, rest) ← readRedirects steps rest
      .ok (r :: more, rest)

/-- The name and the value of an assignment. -/
def assignment? (raw : List Char) : Option (String × List Char) :=
  match raw.span isNameChar with
  | (name, '=' :: value) =>
    if name.head?.any isNameStart then some (String.ofList name, value) else none
  | _ => none

def readSimple : Nat → List (String × List Char) → List (List Char) → List Redirect → Read Command
  | 0, _, _, _, ts => unexpected ts
  | steps + 1, assignments, words, redirects, ts => do
    match ← readRedirect ts with
    | some (r, rest) => readSimple steps assignments words (redirects ++ [r]) rest
    | none =>
      match ts with
      | .word raw :: rest =>
        match words, assignment? raw with
        | [], some a => readSimple steps (assignments ++ [a]) [] redirects rest
        | _, _ => readSimple steps assignments (words ++ [raw]) redirects rest
      | _ =>
        if assignments = [] && words = [] && redirects = [] then unexpected ts
        else .ok (.simple assignments words redirects, ts)

def readWords (ts : List Token) : List (List Char) × List Token :=
  match ts with
  | .word raw :: rest =>
    let (more, rest) := readWords rest
    (raw :: more, rest)
  | _ => ([], ts)

/-- Skips what parts the words of a loop from its body. -/
def skipSeparators (ts : List Token) : List Token :=
  match ts with
  | t :: rest => if isOperatorToken ";" t then skipNewlines rest else skipNewlines ts
  | [] => []

def readPatterns : Read (List (List Char))
  | .word raw :: .operator [')'] :: rest => .ok ([raw], rest)
  | .word raw :: .operator ['|'] :: rest => do
    let (more, rest) ← readPatterns rest
    .ok (raw :: more, rest)
  | .word _ :: rest => .error (.unexpected rest (some ")"))
  | ts => .error (.unexpected ts (some "word"))

mutual

/-- Commands one after the other, up to where the list ends. The first one may only be missing
where that is allowed. -/
def readList : Nat → Bool → Read Command
  | 0, _, ts => unexpected ts
  | fuel + 1, mayBeEmpty, ts =>
    match skipNewlines ts with
    | [] => .ok (.nothing, [])
    | t :: rest =>
      if mayBeEmpty && endsList (t :: rest) then .ok (.nothing, t :: rest)
      else do
        let (first, rest) ← readAndOr fuel (t :: rest)
        match rest with
        | .newline :: rest | .operator [';'] :: rest => do
          let (more, rest) ← readList fuel true rest
          .ok (.sequence first more, rest)
        | .operator ['&'] :: rest => do
          let (more, rest) ← readList fuel true rest
          .ok (.sequence (.background first) more, rest)
        | _ => .ok (first, rest)

def readAndOr : Nat → Read Command
  | 0, ts => unexpected ts
  | fuel + 1, ts => do
    let (first, rest) ← readPipeline fuel ts
    readMoreAndOr fuel first rest

def readMoreAndOr : Nat → Command → Read Command
  | 0, _, ts => unexpected ts
  | fuel + 1, first, ts =>
    match ts with
    | .operator ['&', '&'] :: rest => do
      let (second, rest) ← readPipeline fuel (skipNewlines rest)
      readMoreAndOr fuel (.both first second) rest
    | .operator ['|', '|'] :: rest => do
      let (second, rest) ← readPipeline fuel (skipNewlines rest)
      readMoreAndOr fuel (.either first second) rest
    | _ => .ok (first, ts)

def readPipeline : Nat → Read Command
  | 0, ts => unexpected ts
  | fuel + 1, ts =>
    match ts with
    | .word ['!'] :: rest => do
      let (c, rest) ← readPipeline fuel rest
      .ok (.negated c, rest)
    | _ => do
      let (first, rest) ← readCommand fuel ts
      let (more, rest) ← readMorePipeline fuel rest
      .ok (if more.isEmpty then first else .pipeline (first :: more), rest)

def readMorePipeline : Nat → Read (List Command)
  | 0, ts => unexpected ts
  | fuel + 1, ts =>
    match ts with
    | .operator ['|'] :: rest => do
      let (c, rest) ← readCommand fuel (skipNewlines rest)
      let (more, rest) ← readMorePipeline fuel rest
      .ok (c :: more, rest)
    | _ => .ok ([], ts)

def readCommand : Nat → Read Command
  | 0, ts => unexpected ts
  | fuel + 1, ts => do
    match ← readCompound fuel ts with
    | (some c, rest) =>
      let (redirects, rest) ← readRedirects rest.length rest
      .ok (if redirects.isEmpty then c else .redirected c redirects, rest)
    | (none, _) =>
      match ts with
      | .word name :: .operator ['('] :: rest =>
        let ((), rest) ← expectOperator ")" rest
        let (body, rest) ← readCommand fuel (skipNewlines rest)
        .ok (.define (String.ofList name) body, rest)
      | t :: _ => if isClosingWord t then unexpected ts else readSimple (ts.length + 1) [] [] [] ts
      | [] => unexpected []

/-- A command that starts with a reserved word or a parenthesis; none inside where there is no such
word. -/
def readCompound : Nat → Read (Option Command)
  | 0, ts => unexpected ts
  | fuel + 1, ts =>
    match ts with
    | .operator ['('] :: rest => do
      let (body, rest) ← readList fuel false rest
      let ((), rest) ← expectOperator ")" rest
      .ok (some (.subshell body), rest)
    | .word raw :: rest =>
      match String.ofList raw with
      | "\x7b" => do
        let (body, rest) ← readList fuel false rest
        let ((), rest) ← expectWord "\x7d" rest
        .ok (some body, rest)
      | "if" => do
        let (c, rest) ← readConditional fuel rest
        .ok (some c, rest)
      | "while" | "until" => do
        let (test, rest) ← readList fuel false rest
        let (body, rest) ← readBody fuel rest
        .ok (some (.loop (raw = "until".toList) test body), rest)
      | "for" => do
        let (c, rest) ← readEach fuel rest
        .ok (some c, rest)
      | "case" =>
        match rest with
        | .word subject :: rest => do
          let ((), rest) ← expectWord "in" (skipNewlines rest)
          let (cases, rest) ← readCases fuel rest
          .ok (some (.select subject cases), rest)
        | _ => .error (.unexpected rest (some "word"))
      | _ => .ok (none, ts)
    | _ => .ok (none, ts)

def readEach : Nat → Read Command
  | 0, ts => unexpected ts
  | fuel + 1, ts =>
    match ts with
    | .word name :: rest =>
      if !(name.head?.any isNameStart && name.all isNameChar) then .error (.loopVariable rest)
      else
        match skipNewlines rest with
        | .word ['i', 'n'] :: rest => do
          let (words, rest) := readWords rest
          match rest with
          | .newline :: rest | .operator [';'] :: rest => do
            let (body, rest) ← readBody fuel (skipNewlines rest)
            .ok (.each (String.ofList name) (some words) body, rest)
          | _ => unexpected rest
        | _ => do
          let (body, rest) ← readBody fuel (skipSeparators rest)
          .ok (.each (String.ofList name) none body, rest)
    | _ => .error (.loopVariable ts)

def readConditional : Nat → Read Command
  | 0, ts => unexpected ts
  | fuel + 1, ts => do
    let (test, rest) ← readList fuel false ts
    let ((), rest) ← expectWord "then" rest
    let (body, rest) ← readList fuel false rest
    match rest with
    | .word ['e', 'l', 'i', 'f'] :: rest => do
      let (otherwise, rest) ← readConditional fuel rest
      .ok (.conditional test body otherwise, rest)
    | .word ['e', 'l', 's', 'e'] :: rest => do
      let (otherwise, rest) ← readList fuel false rest
      let ((), rest) ← expectWord "fi" rest
      .ok (.conditional test body otherwise, rest)
    | _ => do
      let ((), rest) ← expectWord "fi" rest
      .ok (.conditional test body .nothing, rest)

def readBody : Nat → Read Command
  | 0, ts => unexpected ts
  | fuel + 1, ts => do
    let ((), rest) ← expectWord "do" ts
    let (body, rest) ← readList fuel false rest
    let ((), rest) ← expectWord "done" rest
    .ok (body, rest)

def readCases : Nat → Read (List (List (List Char) × Command))
  | 0, ts => unexpected ts
  | fuel + 1, ts =>
    match skipNewlines ts with
    | .word ['e', 's', 'a', 'c'] :: rest => .ok ([], rest)
    | ts => do
      let ts := match ts with
        | .operator ['('] :: rest => rest
        | _ => ts
      let (patterns, rest) ← readPatterns ts
      let (body, rest) ← readList fuel true rest
      match rest with
      | .operator [';', ';'] :: rest => do
        let (more, rest) ← readCases fuel rest
        .ok ((patterns, body) :: more, rest)
      | .word ['e', 's', 'a', 'c'] :: rest => .ok ([(patterns, body)], rest)
      | _ => .error (.unexpected rest (some ";;"))

end

/-- Enough steps to read any list of tokens. -/
def readFuel (ts : List Token) : Nat := 16 * ts.length + 16

/-- The commands of the next line that has any, and the tokens after it; none at the end. -/
inductive NextLine where
  | done
  | broken (fault : SyntaxFault)
  /-- A line that ends with the tokens has no end of its own. -/
  | line (c : Command) (ended : Bool) (rest : List Token)

/-- A separator after a command: whether the command runs beside the session, and the tokens
after it. -/
def readSeparator? : List Token → Option (Bool × List Token)
  | .operator [';'] :: rest => some (false, rest)
  | .operator ['&'] :: rest => some (true, rest)
  | _ => none

def readLine : Nat → List Token → NextLine
  | 0, ts => .broken (.unexpected ts none)
  | steps + 1, ts =>
    match readAndOr (readFuel ts) ts with
    | .error fault => .broken fault
    | .ok (c, []) => .line c false []
    | .ok (c, .newline :: rest) => .line c true rest
    | .ok (c, rest) =>
      match readSeparator? rest with
      | none => .broken (.unexpected rest none)
      | some (beside, rest) =>
        let c := if beside then .background c else c
        match rest with
        | [] => .line c false []
        | .newline :: rest => .line c true rest
        | _ =>
          match readLine steps rest with
          | .line more ended rest => .line (.sequence c more) ended rest
          | other => other

def nextLine (ts : List Token) : NextLine :=
  match skipNewlines ts with
  | [] => .done
  | start => readLine (start.length + 1) start

end ClientRegistry.Shell
