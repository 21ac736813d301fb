/-!
# Lines
-/

set_option autoImplicit false

namespace ClientRegistry.Text

/-- The text of lines, each with its end. -/
def ofLines (lines : List String) : String := String.join (lines.map (· ++ "\n"))

end ClientRegistry.Text
