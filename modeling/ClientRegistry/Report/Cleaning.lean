import ClientRegistry.Path.Basic
import ClientRegistry.Report.Basic

/-!
# The report of a cleaning
-/

set_option autoImplicit false

namespace ClientRegistry.Report

def ofCleaning (outDir : Path) (removed : Bool) : List Item :=
  if removed then [.heading "Deleted", .removed outDir.text]
  else [.plain ("Nothing to clean, " ++ outDir.text ++ " does not exist.")]

end ClientRegistry.Report
