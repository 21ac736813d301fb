import ClientRegistry.Code.Fragment

/-!
# Building text

A builder holds the text written so far and the level at which the next line stands. Writing a
fragment leaves the level as it was.
-/

set_option autoImplicit false

namespace ClientRegistry.Code

structure Builder where
  indent : Indent
  level : Nat
  text : String
  deriving DecidableEq, Repr

namespace Builder

def start (indent : Indent) : Builder := ⟨indent, 0, ""⟩

/-- Writes a line at the present level. A line without text is not indented. -/
def line (b : Builder) (s : String) : Builder :=
  { b with text := b.text ++ (if s == "" then "" else b.indent.blanks b.level ++ s) ++ "\n" }

def blank (b : Builder) : Builder := { b with text := b.text ++ "\n" }

def deeper (b : Builder) : Builder := { b with level := b.level + 1 }

/-- One level up; the outermost level stays where it is. -/
def shallower (b : Builder) : Builder := { b with level := b.level - 1 }

mutual

def fragment (b : Builder) : Fragment → Builder
  | .line s => b.line s
  | .blank => b.blank
  | .block header body close =>
    match close with
    | some s => (((b.line header).deeper.fragments body).shallower).line s
    | none => ((b.line header).deeper.fragments body).shallower

def fragments (b : Builder) : List Fragment → Builder
  | [] => b
  | f :: rest => (b.fragment f).fragments rest

end

end Builder

def render (fragments : List Fragment) : String :=
  ((Builder.start Indent.two).fragments fragments).text

end ClientRegistry.Code
