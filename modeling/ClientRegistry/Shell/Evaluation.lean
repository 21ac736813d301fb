import ClientRegistry.Shell.Document
import ClientRegistry.Shell.Expansion
import ClientRegistry.Shell.Signals
import ClientRegistry.Shell.Utility

/-!
# Evaluation

Commands run one after the other on a session. A command that is part of a pipeline, stands in
parentheses or is put in the place of its output runs on a copy of the session, of which only the
file tree and the buffers come back. A loop may go on for ever, so the steps are counted.
-/

set_option autoImplicit false

namespace ClientRegistry.Shell

/-! ## Files of a command -/

def openFailure (reading : Bool) (e : FileFailure) : String :=
  match e with
  | .notFound | .notDirectory => if reading then "No such file" else "Directory nonexistent"
  | _ => e.description

def openFile (kind : RedirectKind) (p : String) : Run (Option Channel) := do
  let s ← get
  match kind with
  | .input =>
    match s.tree.contentAt s.dir ⟨p⟩ with
    | .ok content =>
      let (s, i) := s.addBuffer content
      set s
      pure (some (.buffer i))
    | .error e =>
      complain ("cannot open " ++ p ++ ": " ++ openFailure true e)
      pure none
  | .document _ =>
    let (s, i) := s.addBuffer p.toUTF8
    set s
    pure (some (.buffer i))
  | .duplicate => pure (some (if p = "-" then .closed else s.channel (Text.digitsValue p.toList)))
  | .output | .append | .both =>
    match s.tree.destination s.dir ⟨p⟩ with
    | .ok loc =>
      let fresh := kind = .output || (s.tree.node? loc).isNone
      set { s with tree := if fresh then s.tree.fill loc ByteArray.empty else s.tree }
      pure (some (.place loc))
    | .error e =>
      complain ("cannot create " ++ p ++ ": " ++ openFailure false e)
      pure none

/-- Does something with the session's files, and puts them back. -/
def keepingChannels {α : Type} (body : Run α) : Run α := do
  let channels := (← get).channels
  let restore : Run Unit := modify fun s => { s with channels := channels }
  try
    let x ← body
    restore
    pure x
  catch leave =>
    restore
    throw leave

/-- Runs something on a copy of the session, and gives its status. A signal ends the session
itself. -/
def onCopy (body : Run Unit) : Run Nat := do
  let before ← get
  let status ←
    try
      body
      pure (← get).status
    catch leave =>
      match leave with
      | .quit n | .back n => pure n
      | .loops _ _ => pure (← get).status
      | .replaced e => adoptStatus e
      | .killed n => throw (.killed n)
  modify fun after => { before with tree := after.tree, buffers := after.buffers }
  pure status

/-! ## Commands of the shell itself -/

def exitNumber (args : List String) : Run Nat := do
  match args with
  | [] => pure (← get).status
  | n :: _ =>
    if n.toList.all Char.isDigit && n ≠ "" then pure (Text.digitsValue n.toList % 256)
    else
      complain ("exit: Illegal number: " ++ n)
      pure 2

def changeDirectory (args : List String) : Run Nat := do
  let s ← get
  let target := match args with
    | [] => (s.lookUp? "HOME").getD "/"
    | "-" :: _ => (s.lookUp? "OLDPWD").getD ""
    | p :: _ => p
  match s.tree.resolve s.dir ⟨target⟩ with
  | .ok loc =>
    if s.tree.isDirectory loc then
      set (({ s with dir := loc }.setVariable "OLDPWD" s.dir.toPath.text).setVariable "PWD" loc.toPath.text)
      pure 0
    else
      complain ("cd: can't cd to " ++ target)
      pure 2
  | .error _ =>
    complain ("cd: can't cd to " ++ target)
    pure 2

def assignAll (args : List String) : Run (List String) := do
  let mut names := []
  for arg in args do
    match assignment? arg.toList with
    | some (name, value) =>
      modify (·.setVariable name (String.ofList value))
      names := names ++ [name]
    | none => names := names ++ [arg]
  pure names

def exportVariables (args : List String) : Run Nat := do
  let names ← assignAll args
  modify fun s => { s with exported := names ++ s.exported }
  pure 0

/-- Makes variables local to the function that runs, with new values or the ones they have. -/
def makeLocal (args : List String) : Run Nat := do
  for arg in args do
    modify (·.shadow (String.ofList (arg.toList.takeWhile (· ≠ '='))))
  let _ ← assignAll args
  pure 0

def setOptions : List String → Run Nat
  | [] => pure 0
  | "--" :: rest => do
    modify fun s => { s with args := rest }
    pure 0
  | arg :: rest =>
    match arg.toList with
    | '-' :: letters => do
      modify fun s =>
        { s with strict := s.strict || letters.contains 'e', wary := s.wary || letters.contains 'u' }
      setOptions rest
    | '+' :: letters => do
      modify fun s =>
        { s with strict := s.strict && !letters.contains 'e', wary := s.wary && !letters.contains 'u' }
      setOptions rest
    | _ => do
      modify fun s => { s with args := arg :: rest }
      pure 0

def shift (args : List String) : Run Nat := do
  let n := match args with
    | n :: _ => (argumentNumber n).toNat
    | [] => 1
  let s ← get
  if s.args.length < n then
    complain "shift: can't shift that many"
    throw (.quit 2)
  else
    set { s with args := s.args.drop n }
    pure 0

/-- Gives the words of a line to variables, the last one all that is left. -/
def giveWords : List String → List Char → Run Unit
  | [], _ => pure ()
  | [name], line =>
    modify (·.setVariable name (String.ofList (line.reverse.dropWhile isSplitting).reverse))
  | name :: names, line => do
    modify (·.setVariable name (String.ofList (line.takeWhile fun c => !isSplitting c)))
    giveWords names ((line.dropWhile fun c => !isSplitting c).dropWhile isSplitting)

def readLineInto (args : List String) : Run Nat := do
  let names := args.filter (· ≠ "-r")
  let bytes := (← takeInput).toList
  let line := bytes.takeWhile (· ≠ 10)
  let rest := bytes.drop line.length
  match (← get).channel 0 with
  | .buffer i => modify fun s => { s with buffers := s.buffers.set! i (ofBytes rest.tail) }
  | _ => pure ()
  giveWords names ((Text.Utf8.decodeLossy (ofBytes line)).toList.dropWhile isSplitting)
  pure (if rest.isEmpty then 1 else 0)

def signalOf? (text : String) : Option Nat :=
  if text.toList.all Char.isDigit && text ≠ "" then some (Text.digitsValue text.toList)
  else signals.lookup text <|> signals.lookup (String.ofList (text.toList.drop 3))

def killArguments : List String → Option (Nat × List String)
  | "-s" :: name :: rest => (signalOf? name).map fun n => (n, rest)
  | arg :: rest =>
    match arg.toList with
    | '-' :: name => (signalOf? (String.ofList name)).map fun n => (n, rest)
    | _ => some (15, arg :: rest)
  | [] => none

def kill (args : List String) : Run Nat := do
  match killArguments args with
  | none =>
    complain "kill: usage: kill [-s sigspec | -signum | -sigspec] [pid | job]..."
    pure 2
  | some (signal, targets) =>
    let ignored := (← get).traps.lookup signal = some ""
    if targets.contains Session.ownNumber && !isHarmless signal && !ignored then throw (.killed signal)
    forAll targets fun p => do
      if p = Session.ownNumber then pure true
      else
        complain "kill: No such process"
        pure false

def trapNumber? (name : String) : Option Nat := if name = "EXIT" then some 0 else signalOf? name

/-- Sets what is run on signals. -/
def trap (args : List String) : Run Nat := do
  match args with
  | action :: names@(_ :: _) =>
    for name in names do
      if let some n := trapNumber? name then
        modify fun s =>
          let others := s.traps.filter (·.1 ≠ n)
          { s with traps := if action = "-" then others else (n, action) :: others }
    pure 0
  | _ => pure 0

def builtins : List (String × (List String → Run Nat)) :=
  [(":", succeed), ("cd", changeDirectory), ("export", exportVariables), ("readonly", exportVariables),
    ("local", makeLocal),
    ("set", setOptions), ("shift", shift),
    ("unset", fun args => do
      for name in args do
        modify (·.unsetVariable name)
      pure 0),
    ("read", readLineInto), ("kill", kill), ("trap", trap), ("wait", succeed), ("umask", succeed),
    ("ulimit", succeed),
    ("exit", fun args => do throw (.quit (← exitNumber args))),
    ("return", fun args => do throw (.back (← exitNumber args))),
    ("break", fun args => throw (.loops ((args.head?.map argumentNumber).getD 1).toNat false)),
    ("continue", fun args => throw (.loops ((args.head?.map argumentNumber).getD 1).toNat true))]

/-- The commands of the shell that keep what is assigned before them. -/
def keepers : List String :=
  [":", ".", "break", "continue", "eval", "exec", "exit", "export", "readonly", "return", "set", "shift", "trap",
    "unset"]

/-- Where a command is found that the shell knows. -/
def commandPlace (name : String) : String :=
  if (builtins.any (·.1 = name)) || ["echo", "printf", "true", "false", "pwd", "test", "["].contains name then name
  else "/usr/bin/" ++ name

/-- Ends a strict session on a failure, unless the status is looked at. -/
def checkStatus (tested : Bool) : Run Unit := do
  let s ← get
  if s.strict && !tested && s.status ≠ 0 then throw (.quit s.status)

/-- How the arguments of a shell say what it runs: a text or a file, and with which name and
arguments. -/
inductive Program where
  | text (source : String) (name : String) (args : List String)
  | file (path : String) (args : List String)
  | input

def endOf (run : Run Unit) : Run ExitStatus := do
  try
    run
    pure (.code (← get).status)
  catch leave =>
    match leave with
    | .quit n | .back n => pure (.code n)
    | .killed n => pure (.signal n)
    | .replaced e => pure e
    | .loops _ _ => pure (.code 0)

def programOf (name : String) : List String → List Char → Program × List Char
  | [], options => (.input, options)
  | arg :: rest, options =>
    match arg.toList with
    | '-' :: c :: letters =>
      if arg = "--" then
        match rest with
        | p :: args => (.file p args, options)
        | [] => (.input, options)
      else if (c :: letters).contains 'c' then
        match rest with
        | source :: n :: args => (.text source n args, options ++ c :: letters)
        | [source] => (.text source name [], options ++ c :: letters)
        | [] => (.input, options ++ c :: letters)
      else programOf name rest (options ++ c :: letters)
    | _ => (.file arg rest, options)

mutual

/-- Runs the lines of a script. Where the text ends while something is open, its message and its
last line are known, and the line that it is open in does not run. -/
def runLines : Nat → List Token → Option (String × Nat) → Run Unit
  | 0, _, _ => throw (.quit 2)
  | fuel + 1, ts, opened => do
    let skipped := (ts.takeWhile (· == .newline)).length
    modify fun s => { s with line := s.line + skipped }
    let stop (message : String) (line : Nat) : Run Unit := do
      modify fun s => { s with line := line }
      complain message
      throw (.quit 2)
    let linesBefore (rest : List Token) : Nat :=
      linesOf ((ts.drop skipped).take (ts.length - skipped - rest.length))
    match nextLine ts, opened with
    | .done, none => pure ()
    | .done, some (message, line) => stop message line
    | .line _ false _, some (message, line) => stop message line
    | .broken (.unexpected [] _), some (message, line) => stop message line
    | .broken fault, _ =>
      let found := (fault.rest.head?.filter (· == .newline)).map Token.lineCount
      stop fault.message ((← get).line + linesBefore fault.rest + found.getD 0)
    | .line c _ rest, _ =>
      runCommand fuel false c
      modify fun s => { s with line := s.line + linesBefore rest }
      runLines fuel rest opened

def runText : Nat → List Char → Run Unit
  | 0, _ => throw (.quit 2)
  | fuel + 1, source => do
    let lexer := readScript source
    match lexer.finish? with
    | some ts => runLines fuel ts none
    | none => runLines fuel lexer.closedTokens (some (lexer.openMessage, (← get).line + source.count '\n'))

def substituteCommand : Nat → List Char → Run ByteArray
  | 0, _ => throw (.quit 2)
  | fuel + 1, source => do
    let (s, i) := (← get).addBuffer ByteArray.empty
    set s
    let status ← keepingChannels do
      modify (·.setChannel 1 (.buffer i))
      onCopy (runText fuel source)
    setStatus status
    pure ((← get).buffer i)

/-- Opens the files of redirections; tells whether all could be opened. -/
def openAll : Nat → List Redirect → Run Bool
  | 0, _ => throw (.quit 2)
  | _, [] => pure true
  | fuel + 1, r :: rest => do
    let target ← match r.kind with
      | .document true => expandDocument (substituteCommand fuel) r.target
      | .document false => pure (String.ofList r.target)
      | _ => expandText (substituteCommand fuel) r.target
    match ← openFile r.kind target with
    | some channel =>
      modify (·.setChannel r.descriptor channel)
      openAll fuel rest
    | none => pure false

def runShell : Nat → String → List String → Run ExitStatus
  | 0, _, _ => throw (.quit 2)
  | fuel + 1, name, args => do
    let s ← get
    let (program, options) := programOf name args []
    let inner : Session :=
      { s with
        bindings := s.bindings.filter fun (n, _) => s.exported.contains n || n = "IFS"
        functions := []
        name := name
        args := []
        status := 0
        line := 1
        strict := options.contains 'e'
        wary := options.contains 'u'
        shadowed := []
        traps := s.traps.filter (·.2 = "") }
    set inner
    let run : Run Unit :=
      match program with
      | .text source n args => do
        modify fun s => { s with name := n, args := args }
        runText fuel source.toList
      | .file p args => do
        match inner.tree.contentAt inner.dir ⟨p⟩ with
        | .ok content =>
          modify fun s => { s with name := p, args := args }
          runText fuel (Text.Utf8.decodeLossy content).toList
        | .error e =>
          modify fun s => { s with line := 0 }
          complain ("cannot open " ++ p ++ ": " ++ openFailure true e)
          throw (.quit 2)
      | .input => do
        let content ← takeInput
        runText fuel (Text.Utf8.decodeLossy content).toList
    let ended ← endOf run
    let ended ← match (← get).traps.lookup 0, ended with
      | some action, .code n =>
        endOf (do
          modify fun s => { s with traps := [] }
          setStatus n
          runText fuel action.toList
          setStatus n)
      | _, _ => pure ended
    modify fun after => { s with tree := after.tree, buffers := after.buffers }
    pure ended

/-- Runs a program; none where there is no such program, after a message that says so. -/
def runProgram : Nat → String → List String → Run ExitStatus
  | 0, _, _ => throw (.quit 2)
  | fuel + 1, name, args => do
    let s ← get
    match systemProgram name with
    | "sh" => runShell fuel name args
    | "env" =>
      let rest := args.dropWhile fun a => (assignment? a.toList).isSome
      let _ ← exportVariables (args.take (args.length - rest.length))
      let ended ← match rest with
        | n :: rest => runProgram fuel n rest
        | [] => pure (.code 0)
      modify fun after => { after with bindings := s.bindings, exported := s.exported }
      pure ended
    | program =>
      match utility? program with
      | some run => pure (.code (← run args))
      | none =>
        if name.toList.contains '/' && s.tree.pathExists s.dir ⟨name⟩ then
          complain (name ++ ": Permission denied")
          pure (.code 126)
        else
          complain (name ++ ": not found")
          pure (.code 127)

def runNamed : Nat → Bool → String → List String → Run Nat
  | 0, _, _, _ => throw (.quit 2)
  | fuel + 1, tested, name, args => do
    let s ← get
    match s.functions.lookup name with
    | some body =>
      set { s with args := args }
      try
        runCommand fuel tested body
      catch leave =>
        match leave with
        | .back n => setStatus n
        | other => throw other
      modify fun after => { after.unshadow s.shadowed.length with args := s.args }
      pure (← get).status
    | none =>
      match builtins.lookup name with
      | some run => run args
      | none =>
        match name with
        | "eval" => do
          setStatus 0
          runText fuel (" ".intercalate args).toList
          pure (← get).status
        | "." => do
          match s.tree.contentAt s.dir ⟨args.head?.getD ""⟩ with
          | .ok content =>
            runText fuel (Text.Utf8.decodeLossy content).toList
            pure (← get).status
          | .error _ =>
            complain (".: cannot open " ++ args.head?.getD "" ++ ": No such file")
            throw (.quit 2)
        | "exec" => do
          match args with
          | [] => pure 0
          | program :: rest => throw (.replaced (← runProgram fuel program rest))
        | "command" => do
          match args with
          | "-v" :: n :: _ =>
            if s.functions.any (·.1 = n) || builtins.any (·.1 = n) || (utility? n).isSome || n = "sh" then
              writeText 1 ((if s.functions.any (·.1 = n) then n else commandPlace n) ++ "\n")
              pure 0
            else pure 127
          | n :: rest => runNamed fuel tested n rest
          | [] => pure 0
        | _ => adoptStatus (← runProgram fuel name args)

def runSimple : Nat → Bool → List (String × List Char) → List (List Char) → List Redirect → Run Unit
  | 0, _, _, _, _ => throw (.quit 2)
  | fuel + 1, tested, assignments, words, redirects => do
    let words ← expandWords (substituteCommand fuel) words
    match words with
    | [] =>
      setStatus 0
      for (name, raw) in assignments do
        let value ← expandText (substituteCommand fuel) raw
        modify (·.setVariable name value)
      let opened ← keepingChannels (openAll fuel redirects)
      if !opened then setStatus 2
    | name :: args =>
      let before ← get
      let inPlace := name = "exec" && args.isEmpty
      let run : Run Unit := do
        if ← openAll fuel redirects then
          for (n, raw) in assignments do
            let value ← expandText (substituteCommand fuel) raw
            modify fun s => { s.setVariable n value with exported := n :: s.exported }
          setStatus (← runNamed fuel tested name args)
        else setStatus 2
      if inPlace then run else keepingChannels run
      if !assignments.isEmpty && !keepers.contains name then
        modify fun after => { after with bindings := before.bindings, exported := before.exported }

/-- Runs the commands of a pipeline, each with what the one before it has written as its input. -/
def runPipeline : Nat → Option Nat → List Command → Run Unit
  | 0, _, _ => throw (.quit 2)
  | _, _, [] => pure ()
  | fuel + 1, input, first :: rest => do
    let (s, output) := (← get).addBuffer ByteArray.empty
    set s
    let status ← keepingChannels do
      if let some i := input then modify (·.setChannel 0 (.buffer i))
      if !rest.isEmpty then modify (·.setChannel 1 (.buffer output))
      onCopy (runCommand fuel true first)
    setStatus status
    runPipeline fuel (some output) rest

/-- Runs the body of a loop once; tells whether the loop goes on. -/
def runBody : Nat → Bool → Command → Run Bool
  | 0, _, _ => throw (.quit 2)
  | fuel + 1, tested, body => do
    try
      runCommand fuel tested body
      pure true
    catch leave =>
      match leave with
      | .loops n goOn => if n ≤ 1 then pure goOn else throw (.loops (n - 1) goOn)
      | other => throw other

def runLoop : Nat → Bool → Bool → Command → Command → Run Unit
  | 0, _, _, _, _ => throw (.quit 2)
  | fuel + 1, tested, whileFails, test, body => do
    let status := (← get).status
    runCommand fuel true test
    if ((← get).status = 0) = (!whileFails) then
      if ← runBody fuel tested body then runLoop fuel tested whileFails test body
    else setStatus (if status = 0 then 0 else status)

def runEach : Nat → Bool → String → List String → Command → Run Unit
  | 0, _, _, _, _ => throw (.quit 2)
  | _, _, _, [], _ => pure ()
  | fuel + 1, tested, name, word :: rest, body => do
    modify (·.setVariable name word)
    if ← runBody fuel tested body then runEach fuel tested name rest body

/-- Runs the first of the cases whose pattern matches. -/
def runCases : Nat → Bool → List Char → List (List (List Char) × Command) → Run Unit
  | 0, _, _, _ => throw (.quit 2)
  | _, _, _, [] => setStatus 0
  | fuel + 1, tested, subject, (patterns, body) :: rest => do
    let globs ← patterns.mapM (expandPattern (substituteCommand fuel))
    if globs.any fun g => Glob.matchesAll g subject then
      setStatus 0
      runCommand fuel tested body
    else runCases fuel tested subject rest

def runCommand : Nat → Bool → Command → Run Unit
  | 0, _, _ => throw (.quit 2)
  | fuel + 1, tested, command => do
    match command with
    | .nothing => pure ()
    | .simple assignments words redirects =>
      runSimple fuel tested assignments words redirects
      checkStatus tested
    | .pipeline commands =>
      runPipeline fuel none commands
      checkStatus tested
    | .negated inner =>
      runCommand fuel true inner
      setStatus (if (← get).status = 0 then 1 else 0)
    | .both first second =>
      runCommand fuel true first
      if (← get).status = 0 then runCommand fuel tested second
    | .either first second =>
      runCommand fuel true first
      if (← get).status ≠ 0 then runCommand fuel tested second
    | .sequence first second =>
      runCommand fuel tested first
      runCommand fuel tested second
    | .background inner =>
      let _ ← onCopy (runCommand fuel true inner)
      setStatus 0
    | .subshell body =>
      setStatus (← onCopy (runCommand fuel tested body))
      checkStatus tested
    | .conditional test body otherwise =>
      runCommand fuel true test
      if (← get).status = 0 then runCommand fuel tested body
      else
        setStatus 0
        runCommand fuel tested otherwise
    | .loop whileFails test body =>
      setStatus 0
      runLoop fuel tested whileFails test body
    | .each name words body =>
      let words ← match words with
        | some ws => expandWords (substituteCommand fuel) ws
        | none => pure (← get).args
      setStatus 0
      runEach fuel tested name words body
    | .select word cases =>
      let subject ← expandText (substituteCommand fuel) word
      runCases fuel tested subject.toList cases
    | .define name body =>
      modify fun s => { s with functions := (name, body) :: s.functions }
      setStatus 0
    | .redirected body redirects =>
      keepingChannels do
        if ← openAll fuel redirects then runCommand fuel tested body else setStatus 2
      checkStatus tested

end

end ClientRegistry.Shell
