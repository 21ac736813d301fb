import ClientRegistry.Code.Declaration

/-!
# Classes

The members of a class stand in groups with a blank line between them: all fields together, then
the constructor, then each method.
-/

set_option autoImplicit false

namespace ClientRegistry.Code

structure Field where
  name : String
  type : String
  isPrivate : Bool
  value : Option String
  deriving DecidableEq, Repr

def Field.declaration (f : Field) : String :=
  (if f.isPrivate then "private " else "") ++ f.name ++ ": " ++ f.type ++
    (f.value.map (" = " ++ ·)).getD "" ++ ";"

inductive MethodRole where
  | constructor
  | method (name : String)
  | getter (name : String)
  deriving DecidableEq, Repr

namespace MethodRole

def name : MethodRole → String
  | constructor => "constructor"
  | method n => n
  | getter n => n

def isGetter : MethodRole → Bool
  | getter _ => true
  | _ => false

end MethodRole

structure Method where
  role : MethodRole
  /-- The parameters that are types, without the brackets around them. -/
  generics : Option String
  parameters : List Typed
  result : Option String
  body : List Fragment

namespace Method

def name (m : Method) : String := m.role.name

def signature (m : Method) : String :=
  (if m.role.isGetter then "get " else "") ++ m.name ++
    (m.generics.map fun g => "<" ++ g ++ ">").getD "" ++
    "(" ++ parameterList m.parameters ++ ")" ++ resultText m.result ++ " \x7b"

def fragments (m : Method) : List Fragment := [.braced m.signature m.body]

end Method

structure ClassDeclaration where
  name : String
  exported : Bool
  fields : List Field
  creation : Option Method
  methods : List Method

namespace ClassDeclaration

/-- The members in the groups between which a blank line stands. -/
def groups (c : ClassDeclaration) : List (List Fragment) :=
  (if c.fields.isEmpty then [] else [c.fields.map fun f => .line f.declaration]) ++
    (c.creation.toList ++ c.methods).map Method.fragments

def opening (c : ClassDeclaration) : String := exportWord c.exported ++ "class " ++ c.name ++ " \x7b"

def fragments (c : ClassDeclaration) : List Fragment :=
  if c.groups.isEmpty then [.line (c.opening ++ "\x7d")]
  else [.braced c.opening ([Fragment.blank].intercalate c.groups)]

def memberNames (c : ClassDeclaration) : List String :=
  c.fields.map Field.name ++ (c.creation.toList ++ c.methods).map Method.name

end ClassDeclaration

end ClientRegistry.Code
