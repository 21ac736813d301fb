import ClientRegistry.Generation.Compilation
import ClientRegistry.Generation.Formatter
import ClientRegistry.Generation.Result
import ClientRegistry.Manifest.Basic
import ClientRegistry.Registry.Module
import ClientRegistry.Service.Extraction

/-!
# Generators

A generator makes the clients of a project, cycle by cycle. A cycle removes what was made before,
runs the compiler, finds the services of what it has made, writes the registry, and has it
formatted.
-/

set_option autoImplicit false

namespace ClientRegistry

inductive GenerationError where
  | refused (outDir : Path) (reason : Invalid)
  | notCleaned (outDir : Path) (cause : FileFailure)
  | notCompiled (cause : CompileError)
  | notWritten (cause : WriteError)
  deriving DecidableEq, Repr

namespace GenerationError

def messages : GenerationError → List String
  | refused outDir reason => ["Refusing to clean " ++ outDir.text ++ ": " ++ reason.message]
  | notCleaned outDir cause => ["Failed to clean " ++ outDir.text, cause.message]
  | notCompiled cause => cause.messages
  | notWritten cause => cause.messages

def text (e : GenerationError) : String := ": ".intercalate e.messages

end GenerationError

structure Generator where
  root : Path
  config : GenerationConfig
  compiler : String
  formatter : Option Formatter
  deriving DecidableEq, Repr

/-- Removes an output directory with everything in it. Tells whether there was one. -/
def cleanOutDir (h : Host) (outDir : Path) : Work GenerationError Bool := do
  if ← Work.look fun t => t.pathExists h.dir outDir then
    (Work.edit fun t => t.removeTree h.dir outDir).mapError (GenerationError.notCleaned outDir)
    pure true
  else pure false

namespace Generator

def ofToolchain (root : Path) (config : GenerationConfig) (tools : Toolchain) : Generator where
  root := root
  config := config
  compiler := tools.compiler
  formatter := tools.formatter.bind Formatter.ofCommand?

def outDir (g : Generator) : Path := g.root.join g.config.outDir

/-- Removes what was made before, where that is wanted and harmless. -/
def prepare (g : Generator) (h : Host) : Work GenerationError Unit := do
  if g.config.clean then
    Work.check (g.config.validate.mapError (GenerationError.refused g.outDir))
    let _ ← cleanOutDir h g.outDir
    pure ()

def writeRegistry (g : Generator) (h : Host) (services : List Service) : Work GenerationError Unit := do
  let _ ← (Work.edit fun t =>
    t.write h.dir (Registry.filePath g.outDir) .always (Registry.ofServices services).text).mapError
      GenerationError.notWritten
  pure ()

/-- Runs one cycle. -/
def generate (g : Generator) (h : Host) : Work GenerationError Generation := do
  g.prepare h
  let made ← (Compiler.run h ⟨g.root, g.compiler⟩ g.config.protoPath g.config.outDir
    g.config.extraFlags).mapError GenerationError.notCompiled
  let found ← Work.look fun t => Service.extract t h.dir g.outDir made.files
  Work.tell found.log
  g.writeRegistry h found.services
  let clients := Registry.filePath g.outDir
  if let some f := g.formatter then
    let _ ← f.format h g.root clients
  Work.tell [Log.info ("Generated " ++ clients.text ++ " with " ++ toString found.services.length ++ " service(s)")]
  pure ⟨made.template, found.services, found.skipped, clients⟩

end Generator

end ClientRegistry
