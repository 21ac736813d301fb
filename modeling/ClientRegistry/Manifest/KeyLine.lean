import ClientRegistry.Document.Value
import ClientRegistry.Text.Blank
import ClientRegistry.Text.Size

/-!
# The line of a key

A message about a key's value points at the first line that starts with the key and an equals
sign, without the blanks around it.
-/

set_option autoImplicit false

namespace ClientRegistry.Manifest

/-- Whether a line, after its leading blanks, gives a value to a key. -/
def givesKey (key line : List Char) : Bool :=
  key.isPrefixOf line && (Text.dropBlanks (line.drop key.length)).head? == some '='

/-- The first of the lines that gives a value to a key; the lines start at an offset. -/
def keyLineFrom (key : List Char) : Nat → List (List Char) → Option Document.Span
  | _, [] => none
  | offset, line :: rest =>
    let trimmed := Text.dropBlanks line
    if givesKey key trimmed then
      some ⟨offset + (Text.byteCount line - Text.byteCount trimmed), Text.byteCount (Text.dropEndBlanks trimmed)⟩
    else keyLineFrom key (offset + Text.byteCount line + 1) rest

/-- Where a text gives a value to a key. -/
def keyLine? (text key : String) : Option Document.Span :=
  keyLineFrom key.toList 0 (text.toList.splitOn '\n')

end ClientRegistry.Manifest
