import ClientRegistry.FileTree.Lookup
import ClientRegistry.Manifest.Decoding
import ClientRegistry.Manifest.KeyLine

/-!
# Loading manifests

A manifest is read from a file, decoded and validated. Where there is no file, every key has its
default.
-/

set_option autoImplicit false

namespace ClientRegistry.Manifest

inductive LoadError where
  | unreadable (file : Path) (cause : FileFailure)
  /-- The text is no document. -/
  | malformed (file : String)
  /-- The document is no manifest. -/
  | mistaken (file : String) (mistake : Mistake)
  /-- The manifest is refused; the span is the line of the key, where there is one. -/
  | refused (file : String) (reason : Invalid) (line : Option Document.Span)
  deriving DecidableEq, Repr

namespace LoadError

def message : LoadError → String
  | unreadable file _ => "failed to read '" ++ file.text ++ "'"
  | malformed _ | mistaken _ _ => "failed to parse connectgen.toml"
  | refused _ reason _ => reason.message

def code? : LoadError → Option String
  | unreadable _ _ => none
  | malformed _ | mistaken _ _ => some "connectgen::parse_error"
  | refused _ _ _ => some "connectgen::invalid_value"

def help? : LoadError → Option String
  | unreadable _ _ => some "run 'connectgen init' to create a connectgen.toml"
  | _ => none

end LoadError

/-- The manifest that a text says, shown in messages under a file's name. -/
def ofText (file text : String) : Except LoadError Manifest :=
  match Document.read text with
  | none => .error (.malformed file)
  | some entries =>
    match ofEntries entries with
    | .error mistake => .error (.mistaken file mistake)
    | .ok m =>
      match m.validate with
      | .error reason => .error (.refused file reason (keyLine? text reason.key))
      | .ok () => .ok m

def ofFile (t : FileTree) (dir : Location) (file : Path) : Except LoadError Manifest :=
  match t.textAt dir file with
  | .error cause => .error (.unreadable file cause)
  | .ok text => ofText file.text text

/-- The manifest of a file, or the default one where nothing is there. -/
def ofFileOrDefault (t : FileTree) (dir : Location) (file : Path) : Except LoadError Manifest :=
  if t.pathExists dir file then ofFile t dir file else .ok default

end ClientRegistry.Manifest
