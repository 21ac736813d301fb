import ClientRegistry.Path.Basic

/-!
# Import paths

A generated module is imported by its path below the output directory: the names of that path,
the last one without its extension, each after a slash, after a dot for the directory itself.
-/

set_option autoImplicit false

namespace ClientRegistry.Path

def componentsWithoutExtension (p : Path) : List Component :=
  match p.components.reverse with
  | [] => []
  | last :: up => up.reverse ++ [last.withoutExtension]

/-- The names by which a file is imported from a directory; none for a file outside of it. -/
def importSegments? (base file : Path) : Option (List String) :=
  (file.relativeTo? base).map fun relative => relative.componentsWithoutExtension.filterMap Component.name?

/-- The text of an import path with these names. -/
def importText (names : List String) : String := "./" ++ "/".intercalate names

/-- The path by which a file is imported from a directory. A file outside of the directory has
none, nor has one of which no name is left. -/
def importPath? (base file : Path) : Option String :=
  match importSegments? base file with
  | none | some [] => none
  | some names => some (importText names)

end ClientRegistry.Path
