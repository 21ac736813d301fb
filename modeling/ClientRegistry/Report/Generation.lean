import ClientRegistry.Generation.Result
import ClientRegistry.Report.Basic

/-!
# The report of a generation

Files are shown by their paths below the project's root, where they lie below it.
-/

set_option autoImplicit false

namespace ClientRegistry.Report

def shownPath (root p : Path) : String := ((p.relativeTo? root).getD p).text

structure OfGeneration where
  template : String
  services : List Service
  warnings : List String
  clients : String
  deriving DecidableEq, Repr

namespace OfGeneration

def make (root : Path) (g : Generation) : OfGeneration where
  template :=
    match g.template with
    | .file p => shownPath root p
    | .default => Template.Source.default.text
  services := g.services
  warnings := g.skipped.map fun s => shownPath root s.path ++ " " ++ s.reason.message
  clients := shownPath root g.clients

def serviceText (s : Service) : String :=
  s.instanceName ++ " (" ++ s.identifier ++ " from " ++ s.importPath ++ ")"

def serviceItems (services : List Service) : List Item :=
  if services.isEmpty then [.plain "No services found."]
  else .heading ("Services (" ++ toString services.length ++ ")") ::
    services.map fun s => .added (serviceText s)

def items (r : OfGeneration) : List Item :=
  r.warnings.map .warning ++ [.keyValue "Template" r.template, .blank] ++ serviceItems r.services ++
    [.blank, .keyValue "Generated" r.clients]

end OfGeneration

end ClientRegistry.Report
