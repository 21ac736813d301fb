import ClientRegistry.Generation.Template
import ClientRegistry.Service.Descriptor

/-!
# What a generation makes
-/

set_option autoImplicit false

namespace ClientRegistry

structure Generation where
  template : Template.Source
  services : List Service
  skipped : List Service.Skipped
  /-- The file of the registry. -/
  clients : Path
  deriving DecidableEq, Repr

end ClientRegistry
