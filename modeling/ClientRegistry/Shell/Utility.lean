import ClientRegistry.FileTree.Writing
import ClientRegistry.Shell.Condition
import ClientRegistry.Shell.Pattern
import ClientRegistry.Shell.Printing
import ClientRegistry.Text.Blank
import ClientRegistry.Text.Lines
import ClientRegistry.Text.Utf8

/-!
# Utilities

The programs that scripts run on files. Each gives its status.
-/

set_option autoImplicit false

namespace ClientRegistry.Shell

def report (utility text : String) : Run Unit := writeText 2 (utility ++ ": " ++ text ++ "\n")

/-- The option letters at the start of the arguments, and the operands after them. -/
def splitOptions : List String → List Char × List String
  | [] => ([], [])
  | arg :: rest =>
    if arg = "--" then ([], rest)
    else
      match arg.toList with
      | '-' :: c :: letters =>
        let (more, operands) := splitOptions rest
        (c :: letters ++ more, operands)
      | _ => ([], arg :: rest)

/-- Runs a step for each operand; the status is one if a step failed. -/
def forAll (operands : List String) (step : String → Run Bool) : Run Nat := do
  let mut failed := false
  for x in operands do
    if !(← step x) then failed := true
  pure (if failed then 1 else 0)

/-- Runs a change of the tree, and reports its failure. -/
def tryChange (utility : String) (message : FileFailure → String)
    (change : FileTree → Location → Except FileFailure FileTree) : Run Bool := do
  match ← changeTree change with
  | .ok () => pure true
  | .error e =>
    report utility (message e)
    pure false

def quotedName (name : String) : String := "'" ++ name ++ "'"

def fileContent (p : String) : Run (Except FileFailure ByteArray) := do
  let s ← get
  pure (s.tree.contentAt s.dir ⟨p⟩)

def operandContent (utility p : String) : Run (Option ByteArray) := do
  if p = "-" then pure (some (← takeInput))
  else
    match ← fileContent p with
    | .ok content => pure (some content)
    | .error e =>
      report utility (p ++ ": " ++ e.description)
      pure none

/-- The contents of all operands, or of the input if there are none. -/
def allContents (utility : String) (operands : List String) : Run (List (String × ByteArray) × Nat) := do
  let mut contents := []
  let mut status := 0
  for p in (if operands.isEmpty then ["-"] else operands) do
    match ← operandContent utility p with
    | some content => contents := contents ++ [(p, content)]
    | none => status := 1
  pure (contents, status)

def cat (args : List String) : Run Nat := do
  let (_, operands) := splitOptions args
  forAll (if operands.isEmpty then ["-"] else operands) fun p => do
    match ← operandContent "cat" p with
    | some content =>
      writeBytes 1 content
      pure true
    | none => pure false

def makeAll (t : FileTree) (dir : Location) (p : Path) : Except FileFailure FileTree :=
  match t.makeDirectories dir p with
  | (made, .ok ()) => .ok made
  | (_, .error e) => .error e

def mkdir (args : List String) : Run Nat := do
  let (options, operands) := splitOptions args
  forAll operands fun p =>
    tryChange "mkdir" (fun e => "cannot create directory " ++ quotedName p ++ ": " ++ e.description)
      fun t dir => if options.contains 'p' then makeAll t dir ⟨p⟩ else t.makeDirectory dir ⟨p⟩

def rmdir (args : List String) : Run Nat := do
  let (_, operands) := splitOptions args
  forAll operands fun p =>
    tryChange "rmdir" (fun e => "failed to remove " ++ quotedName p ++ ": " ++ e.description)
      fun t dir => t.removeDirectory dir ⟨p⟩

/-- Removes an entry, a directory only if it is asked for with what it holds. -/
def removeOperand (recursive force : Bool) (p : String) : Run Bool := do
  let s ← get
  match s.tree.resolveEntry s.dir ⟨p⟩ with
  | .error e =>
    if force && (e = .notFound || e = .notDirectory) then pure true
    else
      report "rm" ("cannot remove " ++ quotedName p ++ ": " ++ e.description)
      pure false
  | .ok loc =>
    if s.tree.isDirectory loc then
      if !recursive then
        report "rm" ("cannot remove " ++ quotedName p ++ ": Is a directory")
        pure false
      else
        match s.tree.removeTree s.dir ⟨p⟩ with
        | (t, .ok ()) =>
          set { s with tree := t }
          pure true
        | (t, .error e) =>
          set { s with tree := t }
          report "rm" ("cannot remove " ++ quotedName p ++ ": " ++ e.description)
          pure false
    else
      tryChange "rm" (fun e => "cannot remove " ++ quotedName p ++ ": " ++ e.description)
        fun t dir => t.removeEntry dir ⟨p⟩

def rm (args : List String) : Run Nat := do
  let (options, operands) := splitOptions args
  forAll operands
    (removeOperand (options.contains 'r' || options.contains 'R') (options.contains 'f'))

def touch (args : List String) : Run Nat := do
  let (options, operands) := splitOptions args
  forAll operands fun p =>
    tryChange "touch" (fun e => "cannot touch " ++ quotedName p ++ ": " ++ e.description)
      fun t dir =>
        if t.pathExists dir ⟨p⟩ || options.contains 'c' then .ok t
        else t.writeContent dir ⟨p⟩ ByteArray.empty

def within (t : FileTree) (dir : Location) (source target : String) : Path :=
  if t.isDirectoryAt dir ⟨target⟩ then (Path.mk target).join ⟨((Path.mk source).fileName?).getD source⟩
  else ⟨target⟩

def copyAll (t : FileTree) (source target : Location) : FileTree :=
  let whole := (t.node? source).toList.map fun n => (source, n)
  (whole ++ t.below source).foldl (fun t (loc, n) => t.put (target ++ loc.drop source.length) n) t

def entryPlace (t : FileTree) (dir : Location) (p : Path) : Except FileFailure Location := do
  let (parent, ending) ← t.entryOf dir p
  match ending with
  | .name n _ => .ok (parent ++ [n])
  | _ => .error .alreadyExists

def cp (args : List String) : Run Nat := do
  let (options, operands) := splitOptions args
  let recursive := options.any fun c => c = 'r' || c = 'R' || c = 'a'
  let target := operands.getLast?.getD ""
  forAll operands.dropLast fun p => do
    let s ← get
    if s.tree.isDirectoryAt s.dir ⟨p⟩ && !recursive then
      report "cp" ("-r not specified; omitting directory " ++ quotedName p)
      pure false
    else
      tryChange "cp" (fun e => "cannot copy " ++ quotedName p ++ ": " ++ e.description) fun t dir =>
        if t.isDirectoryAt dir ⟨p⟩ then do
          let source ← t.resolve dir ⟨p⟩
          let place ← entryPlace t dir (within t dir p target)
          .ok (copyAll t source place)
        else do
          let content ← t.contentAt dir ⟨p⟩
          t.writeContent dir (within t dir p target) content

def mv (args : List String) : Run Nat := do
  let (_, operands) := splitOptions args
  let target := operands.getLast?.getD ""
  forAll operands.dropLast fun p =>
    tryChange "mv" (fun e => "cannot move " ++ quotedName p ++ ": " ++ e.description) fun t dir => do
      let source ← t.resolveEntry dir ⟨p⟩
      let place ← entryPlace t dir (within t dir p target)
      if source = place then .ok t
      else
        let moved := copyAll (((t.removeBelow place).remove place)) source place
        .ok ((moved.removeBelow source).remove source)

def ln (args : List String) : Run Nat := do
  let (options, operands) := splitOptions args
  match operands with
  | [target, p] =>
    let done ← tryChange "ln" (fun e => "failed to create link " ++ quotedName p ++ ": " ++ e.description)
      fun t dir =>
        let at' := if options.contains 'n' then ⟨p⟩ else within t dir target p
        let t := if options.contains 'f' then (t.removeEntry dir at').toOption.getD t else t
        if options.contains 's' then t.makeLink dir at' target
        else do
          let content ← t.contentAt dir ⟨target⟩
          t.addFile dir at' content
    pure (if done then 0 else 1)
  | _ => pure 1

def listedNames (t : FileTree) (loc : Location) (options : List Char) : List String :=
  (if options.contains 'a' then [".", ".."] else []) ++
    (t.names loc).filter fun n => options.contains 'a' || options.contains 'A' || n.toList.head? != some '.'

def ls (args : List String) : Run Nat := do
  let (options, operands) := splitOptions args
  let failed ← forAll (if operands.isEmpty then ["."] else operands) fun p => do
    let s ← get
    match s.tree.resolve s.dir ⟨p⟩ with
    | .error e =>
      report "ls" ("cannot access " ++ quotedName p ++ ": " ++ e.description)
      pure false
    | .ok loc =>
      let names := if s.tree.isDirectory loc && !options.contains 'd' then
          listedNames s.tree loc options else [p]
      writeText 1 (Text.ofLines names)
      pure true
  pure (2 * failed)

/-- Lines with their ends, the last one as it is. -/
def byteLines (bytes : List UInt8) : List (List UInt8) :=
  let pieces := bytes.splitOn 10
  pieces.dropLast.map (· ++ [10]) ++ (pieces.getLast?.toList.filter (· ≠ []))

def ofBytes (bytes : List UInt8) : ByteArray := ⟨bytes.toArray⟩

/-- The number of lines that an option asks for, and the operands. -/
def lineCount : List String → Nat × List String
  | "-n" :: n :: rest => ((argumentNumber n).natAbs, rest)
  | arg :: rest =>
    match arg.toList with
    | '-' :: 'n' :: ds => (Text.digitsValue ds, rest)
    | '-' :: ds => if ds ≠ [] && ds.all Char.isDigit then (Text.digitsValue ds, rest) else (10, arg :: rest)
    | _ => (10, arg :: rest)
  | [] => (10, [])

def someLines (utility : String) (choose : Nat → List (List UInt8) → List (List UInt8)) (args : List String) :
    Run Nat := do
  let (n, operands) := lineCount args
  let (contents, status) ← allContents utility operands
  for (_, content) in contents do
    writeBytes 1 (ofBytes (choose n (byteLines content.toList)).flatten)
  pure status

def head (args : List String) : Run Nat := someLines "head" (fun n lines => lines.take n) args

def tail (args : List String) : Run Nat := someLines "tail" (fun n lines => lines.drop (lines.length - n)) args

def countOf (content : ByteArray) : Char → Nat
  | 'l' => content.toList.count 10
  | 'w' => (Text.words (Text.Utf8.decodeLossy content)).length
  | 'm' => (Text.Utf8.decodeLossy content).length
  | _ => content.size

def wc (args : List String) : Run Nat := do
  let (options, operands) := splitOptions args
  let (contents, status) ← allContents "wc" operands
  for (p, content) in contents do
    let letters := if options.isEmpty then ['l', 'w', 'c'] else options
    let counts := letters.map fun c => toString (countOf content c)
    writeText 1 (" ".intercalate (counts ++ (if operands.isEmpty then [] else [p])) ++ "\n")
  pure status

def tee (args : List String) : Run Nat := do
  let (options, operands) := splitOptions args
  let content ← takeInput
  writeBytes 1 content
  forAll operands fun p => tryChange "tee" (fun e => p ++ ": " ++ e.description) fun t dir =>
    let before := if options.contains 'a' then (t.contentAt dir ⟨p⟩).toOption.getD ByteArray.empty else ByteArray.empty
    t.writeContent dir ⟨p⟩ (before ++ content)

def sort (args : List String) : Run Nat := do
  let (options, operands) := splitOptions args
  let (contents, status) ← allContents "sort" operands
  let lines := contents.flatMap fun (_, content) =>
    (byteLines content.toList).map fun l => if l.getLast? = some 10 then l else l ++ [10]
  let sorted := lines.mergeSort fun a b => decide (a ≤ b)
  let sorted := if options.contains 'u' then sorted.eraseDups else sorted
  writeBytes 1 (ofBytes (if options.contains 'r' then sorted.reverse else sorted).flatten)
  pure status

def seq (args : List String) : Run Nat := do
  let (first, last) := match args.map argumentNumber with
    | [n] => (1, n)
    | [a, b] => (a, b)
    | _ => (1, 0)
  writeText 1 (Text.ofLines ((List.range (last - first + 1).toNat).map fun i => toString (first + Int.ofNat i)))
  pure 0

/-- The last piece of a path, without its suffix if that is left with something before it. -/
def basename (args : List String) : Run Nat := do
  let p := args.head?.getD ""
  let trimmed := String.ofList (p.toList.reverse.dropWhile (· = '/')).reverse
  let last := ((Path.mk trimmed).segments.getLast?).getD ""
  let name := if trimmed = "" && p ≠ "" then "/" else last
  let name := match args.tail.head? with
    | some ending =>
      if ending.toList.isSuffixOf name.toList && name ≠ ending then
        String.ofList (name.toList.take (name.length - ending.length)) else name
    | none => name
  writeText 1 (name ++ "\n")
  pure 0

def dirname (args : List String) : Run Nat := do
  let p := args.head?.getD ""
  let up := match (Path.mk p).parent? with
    | some q => if q.text = "" then "." else q.text
    | none => if p = "" then "." else "/"
  writeText 1 (up ++ "\n")
  pure 0

/-! ## Built-in commands -/

def ask (name : String) (condition : FileTree → Location → Except ConditionFault Bool) : Run Nat := do
  let s ← get
  match condition s.tree s.dir with
  | .ok true => pure 0
  | .ok false => pure 1
  | .error fault =>
    complain (name ++ ": " ++ fault.message)
    pure 2

def test (args : List String) : Run Nat := ask "test" fun t dir => Condition.holds t dir args

def bracket (args : List String) : Run Nat :=
  ask "[" fun t dir =>
    if args.getLast? = some "]" then Condition.holds t dir args.dropLast
    else .error .closingBracketExpected

def echo (args : List String) : Run Nat := do
  writeBytes 1 (ofBytes (echoBytes args))
  pure 0

def printf (args : List String) : Run Nat := do
  match args with
  | "--" :: format :: rest | format :: rest =>
    writeBytes 1 (ofBytes (printfBytes format rest))
    pure 0
  | [] =>
    complain "printf: usage: printf format [arg ...]"
    pure 2

def pwd (_ : List String) : Run Nat := do
  writeText 1 ((← get).dir.toPath.text ++ "\n")
  pure 0

def succeed (_ : List String) : Run Nat := pure 0

def fail (_ : List String) : Run Nat := pure 1

def utilities : List (String × (List String → Run Nat)) :=
  [("true", succeed), ("false", fail), ("echo", echo), ("printf", printf), ("pwd", pwd), ("test", test),
    ("[", bracket), ("cat", cat), ("mkdir", mkdir), ("rmdir", rmdir), ("rm", rm), ("touch", touch),
    ("cp", cp), ("mv", mv), ("ln", ln), ("ls", ls), ("head", head), ("tail", tail), ("wc", wc), ("tee", tee),
    ("sort", sort), ("seq", seq), ("basename", basename), ("dirname", dirname), ("sleep", succeed),
    ("chmod", succeed), ("sync", succeed)]

def utility? (name : String) : Option (List String → Run Nat) := utilities.lookup name

def systemProgram (name : String) : String :=
  match (Path.mk name).segments with
  | ["", "bin", n] | ["", "usr", "bin", n] => n
  | _ => name

end ClientRegistry.Shell
