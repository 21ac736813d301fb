import ClientRegistry.CommandLine.Request
import ClientRegistry.Plugin.Watching
import ClientRegistry.Report.Cleaning
import ClientRegistry.Report.Generation

/-!
# Executing requests

A command leaves a file tree, an exit code, and what it has written. The log goes to the error
output, so that the output of `watch` holds nothing but reload signals.
-/

set_option autoImplicit false

namespace ClientRegistry.CommandLine

structure Answer where
  tree : FileTree
  exitCode : Nat
  output : String
  errorOutput : String
  /-- What went wrong, and why, the outermost first. -/
  failure : List String

inductive CommandError where
  | manifest (cause : Manifest.LoadError)
  | invalid (reason : Invalid)
  | generation (cause : GenerationError)
  | writing (cause : WriteError)
  | watching (dir : Path) (cause : FileFailure)
  deriving DecidableEq, Repr

namespace CommandError

def messages : CommandError → List String
  | manifest cause => [cause.message]
  | invalid reason => ["Invalid " ++ reason.key ++ ": " ++ reason.message]
  | generation cause => cause.messages
  | writing cause => cause.messages
  | watching dir cause => ["Failed to watch " ++ dir.text, cause.message]

/-- The messages that are shown as a chain of causes; a manifest is told about by itself. -/
def chain : CommandError → List String
  | manifest _ => []
  | e => e.messages

def ofProject : ProjectError → CommandError
  | .manifest cause => manifest cause
  | .invalid reason => invalid reason

end CommandError

/-! ## Texts -/

def programName : String := "connectgen"

def versionLine : String := programName ++ " 0.1.0"

def usageText : String := Text.ofLines [
  "Usage: " ++ programName ++ " [OPTIONS] <COMMAND>",
  "",
  "Commands: " ++ ", ".intercalate (CommandName.all.map CommandName.text ++ ["help"])]

def completionText (shell : String) : String :=
  let names := CommandName.all.map CommandName.text ++ ["help"]
  let words := " ".intercalate names
  Text.ofLines [
    match shell with
    | "fish" => "complete -c " ++ programName ++ " -f -a '" ++ words ++ "'"
    | "zsh" => "compctl -k '(" ++ words ++ ")' " ++ programName
    | "elvish" =>
      "set edit:completion:arg-completer[" ++ programName ++ "] = \x7b|@words| put " ++ words ++ " \x7d"
    | "powershell" =>
      "Register-ArgumentCompleter -Native -CommandName " ++ programName ++ " -ScriptBlock \x7b '" ++
        "', '".intercalate names ++ "' \x7d"
    | _ => "complete -W '" ++ words ++ "' " ++ programName]

def initText (file : Path) : WriteResult → String
  | .written => Text.ofLines ["Created " ++ file.text, "", "Next steps:", "  " ++ programName ++ " generate"]
  | .skipped => Text.ofLines [file.text ++ " already exists"]

/-! ## Commands -/

/-- What a command shows on the output, and as warnings. -/
structure Shown where
  output : String
  warnings : String

def Shown.ofItems (items : List Report.Item) : Shown := ⟨Report.outputText items, Report.errorText items⟩

def openProject (h : Host) (p : ProjectArguments) : Work CommandError Manifest := do
  let loaded ← Work.look fun t => loadProject t h.dir p
  Work.check (loaded.mapError CommandError.ofProject)

def createManifest (h : Host) (dir : Path) : Work CommandError Shown := do
  let file := dir.join ⟨Manifest.fileName⟩
  let result ← (Work.edit fun t => t.write h.dir file .ifMissing Manifest.defaultText).mapError
    CommandError.writing
  pure ⟨initText file result, ""⟩

def generateClients (h : Host) (p : ProjectArguments) : Work CommandError Shown := do
  let m ← openProject h p
  let root := h.dir.toPath
  let g ← ((Generator.ofToolchain root m.config m.toolchain).generate h).mapError CommandError.generation
  pure (Shown.ofItems (Report.OfGeneration.make root g).items)

def cleanProject (h : Host) (p : ProjectArguments) : Work CommandError Shown := do
  let m ← openProject h p
  let removed ← (cleanOutDir h (h.dir.toPath.join m.config.outDir)).mapError CommandError.generation
  pure (Shown.ofItems (Report.ofCleaning m.config.outDir removed))

def watchProject (h : Host) (events : List WatchEvent) (p : ProjectArguments) : Work CommandError Shown := do
  let m ← openProject h p
  let protoDir := h.dir.toPath.join m.config.protoPath
  let found ← Work.look fun t => t.resolve h.dir protoDir
  let _ ← Work.check (found.mapError (CommandError.watching protoDir))
  Work.tell [Log.info ("Watching " ++ protoDir.text)]
  let plugin := Plugin.ofManifest h.dir.toPath m
  let reloads ← (Work.mk fun t =>
    let w := plugin.watch h ⟨.broadcast, true⟩ events t
    ⟨w.tree, w.log, w.result.map fun _ => w.reloads⟩).mapError CommandError.generation
  pure ⟨Text.ofLines (reloads.map Watch.Reload.wireText), ""⟩

def Command.run (h : Host) (events : List WatchEvent) : Command → Work CommandError Shown
  | .init dir => createManifest h dir
  | .generate p => generateClients h p
  | .watch p => watchProject h events p
  | .clean p => cleanProject h p
  | .completions shell => pure ⟨completionText shell, ""⟩

/-! ## The error output -/

def levelText : Log.Level → String
  | .error => "ERROR"
  | .warn => " WARN"
  | .info => " INFO"
  | .debug => "DEBUG"

def logText (verbose : Bool) (log : Log) : String :=
  Text.ofLines ((log.filter fun l => verbose || l.level ≠ .debug).map fun l =>
    levelText l.level ++ " " ++ l.text)

/-- A message in a chain of causes, its further lines below its first one. -/
def causeText (index : Nat) (message : String) : String :=
  "   " ++ toString index ++ ": " ++
    "\n      ".intercalate ((message.toList.splitOn '\n').map String.ofList)

def failureText (e : CommandError) : String := Text.ofLines ("Error:" :: e.messages.mapIdx causeText)

/-! ## Requests -/

def Request.run (r : Request) (h : Host) (events : List WatchEvent) (t : FileTree) : Answer :=
  let done := (r.command.run h events).run t
  match done.result with
  | .ok shown => ⟨done.tree, 0, shown.output, logText r.verbose done.log ++ shown.warnings, []⟩
  | .error e => ⟨done.tree, 1, "", logText r.verbose done.log ++ failureText e, e.chain⟩

/-- What is answered to arguments that name nothing to do. -/
def Stop.answer (t : FileTree) : Stop → Answer
  | .usage => ⟨t, 2, "", usageText, []⟩
  | .help => ⟨t, 0, usageText, "", []⟩
  | .version => ⟨t, 0, Text.ofLines [versionLine], "", []⟩

/-- The program as a whole: what it does with arguments on a file tree. -/
def execute (h : Host) (events : List WatchEvent) (args : List String) (t : FileTree) : Answer :=
  match Request.read args with
  | .ok r => r.run h events t
  | .error stop => stop.answer t

end ClientRegistry.CommandLine
