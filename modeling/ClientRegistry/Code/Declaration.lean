import ClientRegistry.Code.Fragment

/-!
# Declarations

The statements of a TypeScript module other than classes: imports, interfaces, constants that
hold an object, and functions. Each knows the fragments it is printed as.
-/

set_option autoImplicit false

namespace ClientRegistry.Code

structure Import where
  source : String
  names : List String
  deriving DecidableEq, Repr

namespace Import

def statement (i : Import) : String :=
  if i.names.isEmpty then "import \"" ++ i.source ++ "\";"
  else "import \x7b " ++ ", ".intercalate i.names ++ " \x7d from \"" ++ i.source ++ "\";"

def fragments (i : Import) : List Fragment := [.line i.statement]

end Import

structure Typed where
  name : String
  type : String
  deriving DecidableEq, Repr

def Typed.text (t : Typed) : String := t.name ++ ": " ++ t.type

structure Interface where
  name : String
  fields : List Typed
  deriving DecidableEq, Repr

def Interface.fragments (i : Interface) : List Fragment :=
  if i.fields.isEmpty then [.line ("export interface " ++ i.name ++ " \x7b\x7d")]
  else [.braced ("export interface " ++ i.name ++ " \x7b") (i.fields.map fun f => .line (f.text ++ ";"))]

structure ObjectConstant where
  name : String
  properties : List (String × String)
  exported : Bool
  /-- Whether the object is asserted to be constant in depth. -/
  frozen : Bool
  deriving DecidableEq, Repr

def exportWord (exported : Bool) : String := if exported then "export " else ""

namespace ObjectConstant

def opening (c : ObjectConstant) : String := exportWord c.exported ++ "const " ++ c.name ++ " = \x7b"

def closing (c : ObjectConstant) : String := "\x7d" ++ (if c.frozen then " as const" else "") ++ ";"

def fragments (c : ObjectConstant) : List Fragment :=
  if c.properties.isEmpty then [.line (c.opening ++ c.closing)]
  else [.block c.opening (c.properties.map fun (key, value) => .line (key ++ ": " ++ value ++ ","))
    (some c.closing)]

end ObjectConstant

def parameterList (parameters : List Typed) : String := ", ".intercalate (parameters.map Typed.text)

def resultText (result : Option String) : String := (result.map (": " ++ ·)).getD ""

structure Function where
  name : String
  parameters : List Typed
  result : Option String
  body : List String
  deriving DecidableEq, Repr

def Function.fragments (f : Function) : List Fragment :=
  [.braced ("export function " ++ f.name ++ "(" ++ parameterList f.parameters ++ ")" ++
    resultText f.result ++ " \x7b") (f.body.map .line)]

end ClientRegistry.Code
