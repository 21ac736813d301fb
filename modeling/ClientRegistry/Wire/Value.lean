/-!
# JSON values

What a JSON text says. A number is kept as it is written, and an object keeps its fields in order,
those with a repeated name included.
-/

set_option autoImplicit false

namespace ClientRegistry.Wire

inductive Value where
  | null
  | boolean (b : Bool)
  | number (literal : String)
  | string (s : String)
  | array (items : List Value)
  | object (fields : List (String × Value))
  deriving Repr, Inhabited

namespace Value

/-- The values of all fields with a name. -/
def fieldsNamed (name : String) (fields : List (String × Value)) : List Value :=
  (fields.filter fun (n, _) => n = name).map Prod.snd

end Value

end ClientRegistry.Wire
