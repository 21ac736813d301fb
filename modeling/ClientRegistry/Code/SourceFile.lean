import ClientRegistry.Code.Builder
import ClientRegistry.Code.Declaration

/-!
# Source files

A source file is a header line, imports, and a body of declarations. A blank line stands between
the header, the imports as a whole and each declaration, where they are present.
-/

set_option autoImplicit false

namespace ClientRegistry.Code

structure SourceFile where
  header : Option String
  imports : List Import
  body : List (List Fragment)

namespace SourceFile

def isEmpty (f : SourceFile) : Bool := f.header.isNone && f.imports.isEmpty && f.body.isEmpty

def headerFragments (f : SourceFile) : List Fragment :=
  match f.header with
  | none => []
  | some h => .line h :: (if f.imports.isEmpty && f.body.isEmpty then [] else [.blank])

def importFragments (f : SourceFile) : List Fragment :=
  f.imports.flatMap Import.fragments ++ (if f.imports.isEmpty || f.body.isEmpty then [] else [.blank])

def bodyFragments (f : SourceFile) : List Fragment := [Fragment.blank].intercalate f.body

def fragments (f : SourceFile) : List Fragment :=
  f.headerFragments ++ f.importFragments ++ f.bodyFragments

def text (f : SourceFile) : String := render f.fragments

end SourceFile

end ClientRegistry.Code
