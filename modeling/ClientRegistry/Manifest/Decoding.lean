import ClientRegistry.Decimal.Shortest
import ClientRegistry.Document.Reader
import ClientRegistry.Manifest.Basic
import ClientRegistry.Text.Escaped

/-!
# Manifests from documents

A document has the sections `generate` and `watch`, in each of which every key may be left out. A
section may also be an array of the values of its keys, in the order in which they are declared.
Keys are looked at in the order of the document, and the first mistake counts.
-/

set_option autoImplicit false

namespace ClientRegistry.Manifest

open Document (Value Span Key)

structure Mistake where
  detail : String
  span : Span
  deriving DecidableEq, Repr

/-- A whole number as messages show it: one that fits no 64 bits says so. -/
def integerText (n : Int) : String :=
  "integer \x60" ++ toString n ++ "\x60" ++
    (if Document.fitsSigned 64 n || Document.fitsUnsigned 64 n then ""
     else if Document.fitsSigned 128 n then " as i128" else " as u128")

def valueText : Value → String
  | .string s => "string " ++ Text.escaped s
  | .integer n => integerText n
  | .float x => "floating point \x60" ++ Decimal.floatText x ++ "\x60"
  | .boolean b => "boolean \x60" ++ toString b ++ "\x60"
  | .array _ | .tables _ => "sequence"
  | .moment | .table _ _ => "map"

def wrongType {α : Type} (v : Value) (expected : String) : Except String α :=
  .error ("invalid type: " ++ valueText v ++ ", expected " ++ expected)

def stringOf : Value → Except String String
  | .string s => .ok s
  | v => wrongType v "a string"

def pathOf : Value → Except String Path
  | .string s => .ok ⟨s⟩
  | v => wrongType v "path string"

def booleanOf : Value → Except String Bool
  | .boolean b => .ok b
  | v => wrongType v "a boolean"

/-- A number of milliseconds: one of 64 bits without a sign. -/
def millisecondsOf : Value → Except String UInt64
  | .integer n =>
    if Document.fitsUnsigned 64 n then .ok n.toNat.toUInt64
    else if Document.fitsSigned 64 n then .error ("invalid value: " ++ integerText n ++ ", expected u64")
    else wrongType (.integer n) "u64"
  | v => wrongType v "u64"

structure Field where
  name : String
  set : Manifest → Value → Except String Manifest

structure Section where
  /-- What messages call the section. -/
  typeName : String
  fields : List Field

def generateSection : Section where
  typeName := "struct GenerateSection"
  fields := [
    ⟨"proto_path", fun m v => (pathOf v).map fun p => { m with config := { m.config with protoPath := p } }⟩,
    ⟨"out_dir", fun m v => (pathOf v).map fun p => { m with config := { m.config with outDir := p } }⟩,
    ⟨"extra_flags", fun m v => (stringOf v).map fun s => { m with config := { m.config with extraFlags := s } }⟩,
    ⟨"clean", fun m v => (booleanOf v).map fun b => { m with config := { m.config with clean := b } }⟩,
    ⟨"compiler", fun m v => (stringOf v).map fun s => { m with compiler := s }⟩,
    ⟨"formatter", fun m v => (stringOf v).map fun s => { m with formatter := s }⟩]

def watchSection : Section where
  typeName := "struct WatchSection"
  fields := [⟨"debounce_ms", fun m v => (millisecondsOf v).map fun n => { m with debounceMs := n }⟩]

def quoted (name : String) : String := "\x60" ++ name ++ "\x60"

/-- The names that may stand where another one stands. -/
def expectedNames (names : List String) : String :=
  match names with
  | [a] => "expected " ++ quoted a
  | [a, b] => "expected " ++ quoted a ++ " or " ++ quoted b
  | _ => "expected one of " ++ ", ".intercalate (names.map quoted)

def unknownField (name : String) (names : List String) : String :=
  "unknown field " ++ quoted name ++ ", " ++ expectedNames names

def Section.names (s : Section) : List String := s.fields.map Field.name

/-- The name under which a date or a time is taken for a table. -/
def momentName : String := "$__toml_private_datetime"

def located {α : Type} (span : Span) : Except String α → Except Mistake α
  | .ok x => .ok x
  | .error detail => .error ⟨detail, span⟩

def Section.setEntry (s : Section) (m : Manifest) : Key × Span × Value → Except Mistake Manifest
  | (k, span, v) =>
    match s.fields.find? fun f => f.name = k.name with
    | none => .error ⟨unknownField k.name s.names, k.span⟩
    | some f => located span (f.set m v)

def Section.set (s : Section) (m : Manifest) (span : Span) : Value → Except Mistake Manifest
  | .table _ entries => entries.foldlM s.setEntry m
  | .array items | .tables items =>
    (s.fields.zip items).foldlM (fun m (f, span, v) => located span (f.set m v)) m
  | .moment => .error ⟨unknownField momentName s.names, span⟩
  | v => located span (wrongType v s.typeName)

def sections : List (String × Section) := [("generate", generateSection), ("watch", watchSection)]

def setEntry (m : Manifest) : Key × Span × Value → Except Mistake Manifest
  | (k, span, v) =>
    match sections.lookup k.name with
    | none => .error ⟨unknownField k.name (sections.map Prod.fst), k.span⟩
    | some s => s.set m span v

/-- The manifest that a document stands for. -/
def ofEntries (entries : Document.Entries) : Except Mistake Manifest :=
  entries.foldlM setEntry default

end ClientRegistry.Manifest
