/-!
# Fragments of code

Code is a tree of lines and blocks. Its text is written line by line, each line indented by the
number of blocks it stands in; a blank line and a line without text carry no indentation.
-/

set_option autoImplicit false

namespace ClientRegistry.Code

structure Indent where
  width : Nat
  deriving DecidableEq, Repr

namespace Indent

def two : Indent := ⟨2⟩

/-- The blanks of one level: two when two are asked for, else four. -/
def unit (i : Indent) : String := if i.width = 2 then "  " else "    "

def blanks (i : Indent) (level : Nat) : String := String.join (List.replicate level i.unit)

end Indent

inductive Fragment where
  | line (text : String)
  | blank
  | block (header : String) (body : List Fragment) (close : Option String)
  deriving Repr, Inhabited

namespace Fragment

def braced (header : String) (body : List Fragment) : Fragment := .block header body (some "\x7d")

mutual

/-- The lines of a fragment, each with the number of blocks around it. -/
def linesAt (depth : Nat) : Fragment → List (Nat × String)
  | .line text => [(depth, text)]
  | .blank => [(depth, "")]
  | .block header body close =>
    (depth, header) :: linesOfAll (depth + 1) body ++ close.toList.map fun text => (depth, text)

def linesOfAll (depth : Nat) : List Fragment → List (Nat × String)
  | [] => []
  | f :: rest => linesAt depth f ++ linesOfAll depth rest

end

end Fragment

end ClientRegistry.Code
