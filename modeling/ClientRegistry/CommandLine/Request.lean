import ClientRegistry.CommandLine.Grammar
import ClientRegistry.CommandLine.Project

/-!
# Requests

The arguments name a command, before which the options of the program itself may stand. The
command's own options and its operand come after its name.
-/

set_option autoImplicit false

namespace ClientRegistry.CommandLine

inductive CommandName where
  | init
  | generate
  | watch
  | clean
  | completions
  deriving DecidableEq, Repr

/-- Something to do. -/
inductive Command where
  | init (dir : Path)
  | generate (project : ProjectArguments)
  | watch (project : ProjectArguments)
  | clean (project : ProjectArguments)
  | completions (shell : String)
  deriving DecidableEq, Repr

structure Request where
  verbose : Bool
  command : Command
  deriving DecidableEq, Repr

def shells : List String := ["bash", "elvish", "fish", "powershell", "zsh"]

namespace CommandName

def all : List CommandName := [init, generate, watch, clean, completions]

def text : CommandName → String
  | init => "init"
  | generate => "generate"
  | watch => "watch"
  | clean => "clean"
  | completions => "completions"

def ofText? (text : String) : Option CommandName := all.find? fun n => n.text = text

def projectKeys : List Key := [.config, .protoPath, .outDir, .flags, .noClean, .verbose, .help]

def level : CommandName → Level
  | init => ⟨[.verbose, .help], some (· ≠ "")⟩
  | generate | clean => ⟨projectKeys, none⟩
  | watch => ⟨.debounceMs :: projectKeys, none⟩
  | completions => ⟨[.verbose, .help], some fun s => shells.contains s⟩

end CommandName

namespace Given

def path? (g : Given) (k : Key) : Option Path := (g.value? k).map Path.mk

def project (g : Given) : ProjectArguments where
  config := (g.path? .config).getD ⟨Manifest.fileName⟩
  overrides :=
    { protoPath := g.path? .protoPath
      outDir := g.path? .outDir
      flags := g.value? .flags
      noClean := g.has .noClean
      debounceMs := (g.value? .debounceMs).bind counter? }

def command (g : Given) : CommandName → Except Stop Command
  | .init => .ok (.init ⟨g.operands.head?.getD "."⟩)
  | .generate => .ok (.generate g.project)
  | .watch => .ok (.watch g.project)
  | .clean => .ok (.clean g.project)
  | .completions =>
    match g.operands with
    | shell :: _ => .ok (.completions shell)
    | [] => .error .usage

end Given

namespace Request

def topLevel : Level := ⟨[.verbose, .help, .version], none⟩

/-- What arguments after `help` come to: help on a command that there is. -/
def readHelp : List String → Stop
  | [] => .help
  | "help" :: rest => readHelp rest
  | [name] => if (CommandName.ofText? name).isSome then .help else .usage
  | _ => .usage

def readFrom : Given → List String → Except Stop Request
  | _, [] => .error .usage
  | g, arg :: rest =>
    match CommandName.ofText? arg with
    | some name => do
      let given ← name.level.read Given.empty rest
      let command ← given.command name
      .ok ⟨g.has .verbose || given.has .verbose, command⟩
    | none =>
      if arg = "help" then .error (readHelp rest)
      else
        match topLevel.take g arg with
        | .ok (g, _) => readFrom g rest
        | .error stop => .error stop

def read (args : List String) : Except Stop Request := readFrom Given.empty args

end Request

end ClientRegistry.CommandLine
