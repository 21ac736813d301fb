import ClientRegistry.FileTree.Lookup
import ClientRegistry.Log
import ClientRegistry.Text.Lines

/-!
# Templates

The compiler is told by a template what to write and where. A project's own template is looked for
in the project's root and then beside the schemas; where there is none, one is made that sends
the output to the output directory.
-/

set_option autoImplicit false

namespace ClientRegistry

namespace Template

inductive Source where
  | file (path : Path)
  | default
  deriving DecidableEq, Repr

def Source.text : Source → String
  | file path => path.text
  | default => "default template"

end Template

structure Template where
  source : Template.Source
  content : String
  deriving DecidableEq, Repr

namespace Template

/-- The names under which a template is looked for, in this order. -/
def fileNames : List String := ["buf.gen.yaml", "buf.gen.yml", "buf.gen.json"]

/-- The extension of a copy of the template, which tells its format. -/
def extension (t : Template) : String :=
  match t.source with
  | .file path => path.extension?.getD "yaml"
  | .default => "yaml"

def defaultText (outDir : Path) : String := Text.ofLines [
  "version: v2",
  "plugins:",
  "  - local: protoc-gen-es",
  "    include_imports: true",
  "    opt: target=ts",
  "    out: " ++ outDir.text]

/-- The files that may be a project's template, the one that counts most first. -/
def locations (root protoPath : Path) : List Path :=
  fileNames.map (fun n => root.join ⟨n⟩) ++ fileNames.map fun n => (root.join protoPath).join ⟨n⟩

/-- The first of the files that can be read. -/
def firstReadable? (t : FileTree) (dir : Location) (files : List Path) : Option Template :=
  files.findSome? fun p =>
    match t.textAt dir p with
    | .ok content => some ⟨.file p, content⟩
    | .error _ => none

def find (t : FileTree) (dir : Location) (root protoPath outDir : Path) : Template :=
  (firstReadable? t dir (locations root protoPath)).getD ⟨.default, defaultText outDir⟩

/-- What is told about the template that is used. -/
def log (template : Template) : Log :=
  match template.source with
  | .file path => [Log.info ("Using " ++ path.text)]
  | .default => [Log.info "Using default buf template"]

end Template

end ClientRegistry
