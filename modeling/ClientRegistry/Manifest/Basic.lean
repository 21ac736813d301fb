import ClientRegistry.Path.Folding
import ClientRegistry.Text.Blank
import ClientRegistry.Text.Lines

/-!
# Manifests

A manifest says where the schemas are, where the clients go and which programs make them. A
layout in which cleaning the output directory would delete the schemas or the project is refused.
-/

set_option autoImplicit false

namespace ClientRegistry

structure GenerationConfig where
  protoPath : Path
  outDir : Path
  extraFlags : String
  /-- Whether the output directory is removed first. -/
  clean : Bool
  deriving DecidableEq, Repr

structure Manifest where
  config : GenerationConfig
  compiler : String
  formatter : String
  /-- How long no change may happen before a generation starts, in milliseconds. -/
  debounceMs : UInt64
  deriving DecidableEq, Repr

structure Toolchain where
  compiler : String
  formatter : Option String
  deriving DecidableEq, Repr

inductive Invalid where
  | emptyProtoPath
  | emptyOutDir
  | outDirAboveProject
  | outDirIsProtoPath
  | outDirContainsProtoPath
  | emptyCompiler
  | zeroDebounce
  deriving DecidableEq, Repr

namespace Invalid

/-- The key whose value is refused. -/
def key : Invalid → String
  | emptyProtoPath => "proto_path"
  | emptyOutDir | outDirAboveProject | outDirIsProtoPath | outDirContainsProtoPath => "out_dir"
  | emptyCompiler => "compiler"
  | zeroDebounce => "debounce_ms"

def message : Invalid → String
  | emptyProtoPath => "proto_path must not be empty"
  | emptyOutDir => "out_dir must not be empty"
  | outDirAboveProject => "out_dir must not be the project root or one of its parents"
  | outDirIsProtoPath => "out_dir must differ from proto_path"
  | outDirContainsProtoPath => "out_dir must not contain proto_path"
  | emptyCompiler => "compiler must not be empty"
  | zeroDebounce => "debounce_ms must be greater than zero"

end Invalid

namespace GenerationConfig

def default : GenerationConfig where
  protoPath := ⟨"proto"⟩
  outDir := ⟨"src/.generated-clients"⟩
  extraFlags := ""
  clean := true

instance : Inhabited GenerationConfig := ⟨default⟩

/-- A folded path that leads to the directory it starts from or to one above it. -/
def climbs (folded : List Component) : Bool :=
  folded.head? != some .root && folded.all fun c => c.name?.isNone

def validate (c : GenerationConfig) : Except Invalid Unit :=
  if c.protoPath.text = "" then .error .emptyProtoPath
  else if c.outDir.text = "" then .error .emptyOutDir
  else if climbs c.outDir.folded then .error .outDirAboveProject
  else if c.outDir.folded = c.protoPath.folded then .error .outDirIsProtoPath
  else if c.outDir.folded.isPrefixOf c.protoPath.folded then .error .outDirContainsProtoPath
  else .ok ()

end GenerationConfig

namespace Manifest

def defaultCompiler : String := "npx buf"

def default : Manifest where
  config := GenerationConfig.default
  compiler := defaultCompiler
  formatter := "npx prettier --write"
  debounceMs := 100

instance : Inhabited Manifest := ⟨default⟩

def toolchain (m : Manifest) : Toolchain where
  compiler := Text.trim m.compiler
  formatter := if Text.trim m.formatter = "" then none else some (Text.trim m.formatter)

def validate (m : Manifest) : Except Invalid Unit := do
  m.config.validate
  if Text.trim m.compiler = "" then .error .emptyCompiler
  else if m.debounceMs = 0 then .error .zeroDebounce
  else .ok ()

def fileName : String := "connectgen.toml"

def defaultText : String := Text.ofLines [
  "[generate]",
  "# Directory of .proto files",
  "proto_path = \"proto\"",
  "# Generated clients and clients.ts are written here",
  "out_dir = \"src/.generated-clients\"",
  "# Appended verbatim to \x60buf generate\x60, e.g. \"--debug\"",
  "extra_flags = \"\"",
  "# Delete out_dir before every generation",
  "clean = true",
  "# How buf is invoked",
  "compiler = \"npx buf\"",
  "# Formatter run on clients.ts; set to \"\" to skip",
  "formatter = \"npx prettier --write\"",
  "",
  "[watch]",
  "# Quiet period after the last .proto change before regenerating",
  "debounce_ms = 100"]

end Manifest

end ClientRegistry
