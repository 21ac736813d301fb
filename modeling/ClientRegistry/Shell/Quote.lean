/-!
# Quoting

An argument is quoted so that a shell reads it back as one word, whatever characters it holds.
An argument of plain characters stays as it is.
-/

set_option autoImplicit false

namespace ClientRegistry.Shell

/-- The characters that are written without quotes. -/
def isPlain (c : Char) : Bool := c.isAlphanum || "-_./:=@+,\\".toList.contains c

/-- A single quote ends the quoted text, stands for itself, and opens quoted text again. -/
def quotedChar (c : Char) : List Char := if c = '\'' then "'\\''".toList else [c]

def quote (arg : String) : String :=
  if arg ≠ "" && arg.toList.all isPlain then arg
  else String.ofList ('\'' :: arg.toList.flatMap quotedChar ++ ['\''])

end ClientRegistry.Shell
