import ClientRegistry.Manifest.Loading

/-!
# The project of a command

Commands work on the project in the directory they are called in. Its manifest is read from a
file, and what the command line gives takes the place of what the file says. What comes out of both
has to be a valid manifest.
-/

set_option autoImplicit false

namespace ClientRegistry.CommandLine

structure Overrides where
  protoPath : Option Path
  outDir : Option Path
  flags : Option String
  /-- Keeps what was made before. -/
  noClean : Bool
  debounceMs : Option UInt64
  deriving DecidableEq, Repr

namespace Overrides

def none : Overrides := ⟨.none, .none, .none, false, .none⟩

def apply (o : Overrides) (m : Manifest) : Manifest where
  config :=
    { protoPath := o.protoPath.getD m.config.protoPath
      outDir := o.outDir.getD m.config.outDir
      extraFlags := o.flags.getD m.config.extraFlags
      clean := m.config.clean && !o.noClean }
  compiler := m.compiler
  formatter := m.formatter
  debounceMs := o.debounceMs.getD m.debounceMs

end Overrides

structure ProjectArguments where
  /-- The file of the manifest. -/
  config : Path
  overrides : Overrides
  deriving DecidableEq, Repr

inductive ProjectError where
  | manifest (cause : Manifest.LoadError)
  | invalid (reason : Invalid)
  deriving DecidableEq, Repr

def loadProject (t : FileTree) (dir : Location) (p : ProjectArguments) : Except ProjectError Manifest :=
  match Manifest.ofFileOrDefault t dir (dir.toPath.join p.config) with
  | .error cause => .error (.manifest cause)
  | .ok m =>
    match (p.overrides.apply m).validate with
    | .error reason => .error (.invalid reason)
    | .ok () => .ok (p.overrides.apply m)

end ClientRegistry.CommandLine
