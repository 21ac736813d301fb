import ClientRegistry.Service.Descriptor

/-!
# Registries

A registry holds one member for each key. Of services with the same key the first one is the
member, at its place among the others.
-/

set_option autoImplicit false

namespace ClientRegistry

namespace Registry

structure Member where
  key : String
  /-- The constant that describes the service. -/
  identifier : String
  /-- The module that exports the constant. -/
  importPath : String
  deriving DecidableEq, Repr

def Member.ofService (s : Service) : Member := ⟨s.instanceName, s.identifier, s.importPath⟩

end Registry

structure Registry where
  members : List Registry.Member
  deriving DecidableEq, Repr

namespace Registry

def empty : Registry := ⟨[]⟩

def keys (r : Registry) : List String := r.members.map Member.key

def isEmpty (r : Registry) : Bool := r.members.isEmpty

/-- Adds a member unless its key is taken. -/
def add (r : Registry) (m : Member) : Registry :=
  if m.key ∈ r.keys then r else ⟨r.members ++ [m]⟩

def ofServices (services : List Service) : Registry :=
  services.foldl (fun r s => r.add (Member.ofService s)) empty

end Registry

end ClientRegistry
