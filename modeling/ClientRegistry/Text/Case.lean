/-!
# Lower-case beginnings
-/

set_option autoImplicit false

namespace ClientRegistry.Text

/-- A text with its first character in lower case, if that is one of the letters A to Z. -/
def lowerFirst (s : String) : String :=
  match s.toList with
  | [] => ""
  | c :: rest => String.ofList (c.toLower :: rest)

end ClientRegistry.Text
