import ClientRegistry.FileTree.Lookup
import ClientRegistry.Log
import ClientRegistry.Path.Import
import ClientRegistry.Service.Descriptor

/-!
# Finding the services of generated files

Each file gives a service or is skipped with a reason. Of files that give the same instance name
the first one is kept and the others are duplicates of it.
-/

set_option autoImplicit false

namespace ClientRegistry.Service

/-- The services kept, each with the file that gives it, and the files skipped, both in the order
of the files. -/
structure Extraction where
  kept : List (Service × Path)
  skipped : List Skipped
  deriving DecidableEq, Repr

namespace Extraction

def empty : Extraction := ⟨[], []⟩

def services (e : Extraction) : List Service := e.kept.map Prod.fst

/-- The file that gives the service with this instance name. -/
def provider? (e : Extraction) (instanceName : String) : Option Path :=
  (e.kept.find? fun (s, _) => s.instanceName = instanceName).map Prod.snd

/-- Takes in the next file, of which either a service or the reason to skip it is known. -/
def add (e : Extraction) (file : Path) : Except SkipReason Service → Extraction
  | .error reason => { e with skipped := e.skipped ++ [⟨file, reason⟩] }
  | .ok s =>
    match e.provider? s.instanceName with
    | some first => { e with skipped := e.skipped ++ [⟨file, .duplicateInstance s.instanceName first⟩] }
    | none => { e with kept := e.kept ++ [(s, file)] }

def log (e : Extraction) : Log :=
  e.skipped.map fun s => Log.warn ("Skipping " ++ s.path.text ++ ": file " ++ s.reason.message)

end Extraction

def ofText (outDir file : Path) (text : String) : Except SkipReason Service :=
  match declaredName text with
  | .error m => .error (.noServiceExport m)
  | .ok name =>
    match outDir.importPath? file with
    | none => .error .outsideOutDir
    | some importPath => .ok (ofBaseName name importPath)

def ofFile (t : FileTree) (dir : Location) (outDir file : Path) : Except SkipReason Service :=
  match t.textAt dir file with
  | .error failure => .error (.unreadable failure.message)
  | .ok text => ofText outDir file text

/-- The services of files whose modules are imported from `outDir`. -/
def extract (t : FileTree) (dir : Location) (outDir : Path) (files : List Path) : Extraction :=
  files.foldl (fun e file => e.add file (ofFile t dir outDir file)) Extraction.empty

end ClientRegistry.Service
