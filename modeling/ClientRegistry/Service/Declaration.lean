import ClientRegistry.Text.Blank

/-!
# Service declarations

A generated module declares a service where it says
`export const <Name>Service : GenService <`. Each `export` at the start of a word is a candidate;
the first that matches gives the name. Where none matches, the answer is the mismatch of the
candidate that got furthest.
-/

set_option autoImplicit false

namespace ClientRegistry.Service

/-- What a candidate lacks, in the order in which the parts of a declaration stand. -/
inductive Mismatch where
  | noExport
  | expectedConst
  | expectedIdentifier
  | missingServiceSuffix
  | expectedColon
  | expectedDescriptorType
  | expectedTypeArguments
  deriving DecidableEq, Repr

namespace Mismatch

def progress : Mismatch → Nat
  | noExport => 0
  | expectedConst => 1
  | expectedIdentifier => 2
  | missingServiceSuffix => 3
  | expectedColon => 4
  | expectedDescriptorType => 5
  | expectedTypeArguments => 6

def message : Mismatch → String
  | noExport => "no export statement"
  | expectedConst => "no exported const"
  | expectedIdentifier => "exported const has no name"
  | missingServiceSuffix => "no exported const named *Service"
  | expectedColon => "*Service const has no type annotation"
  | expectedDescriptorType => "*Service const is not typed as GenService"
  | expectedTypeArguments => "GenService annotation has no type arguments"

instance : LT Mismatch := ⟨fun a b => a.progress < b.progress⟩

instance (a b : Mismatch) : Decidable (a < b) := inferInstanceAs (Decidable (a.progress < b.progress))

/-- The mismatch that got further. -/
def furthest (a b : Mismatch) : Mismatch := if b < a then a else b

end Mismatch

/-- The characters of words: letters and digits of ASCII, and the underscore. -/
def isWordChar (c : Char) : Bool := c.isAlphanum || c == '_'

def splitWord (s : List Char) : List Char × List Char := (s.takeWhile isWordChar, s.dropWhile isWordChar)

def suffix : List Char := "Service".toList

def descriptorType : List Char := "GenService".toList

/-- A constant's name without the suffix; something has to be left. -/
def baseName? (identifier : List Char) : Option (List Char) :=
  if suffix.isSuffixOf identifier && suffix.length < identifier.length then
    some (identifier.take (identifier.length - suffix.length))
  else none

/-- Reads what follows a constant's name: a colon, the type, and the start of its arguments. -/
def readTypeOf (s : List Char) : Except Mismatch Unit :=
  match Text.dropBlanks s with
  | ':' :: rest =>
    let (type, rest) := splitWord (Text.dropBlanks rest)
    if type ≠ descriptorType then .error .expectedDescriptorType
    else
      match Text.dropBlanks rest with
      | '<' :: _ => .ok ()
      | _ => .error .expectedTypeArguments
  | _ => .error .expectedColon

def readConstant (s : List Char) : Except Mismatch (List Char) :=
  if (s.head?.all fun c => !Text.isBlank c) then .error .expectedIdentifier
  else
    let (identifier, rest) := splitWord (Text.dropBlanks s)
    if identifier = [] then .error .expectedIdentifier
    else
      match baseName? identifier with
      | none => .error .missingServiceSuffix
      | some name => (readTypeOf rest).map fun _ => name

def readDeclaration (s : List Char) : Except Mismatch (List Char) :=
  if (s.head?.all fun c => !Text.isBlank c) then .error .expectedConst
  else
    let (keyword, rest) := splitWord (Text.dropBlanks s)
    if keyword ≠ "const".toList then .error .expectedConst else readConstant rest

/-- What follows each `export` that no word character precedes. The first argument is the
character before the text. -/
def candidatesAfter : Option Char → List Char → List (List Char)
  | _, [] => []
  | before, c :: rest =>
    if !before.any isWordChar && "export".toList.isPrefixOf (c :: rest) then
      (c :: rest).drop "export".length :: candidatesAfter (some c) rest
    else candidatesAfter (some c) rest

def candidates (source : List Char) : List (List Char) := candidatesAfter none source

/-- The first candidate that matches; else the furthest of the mismatches and `closest`. -/
def firstDeclared (closest : Mismatch) : List (List Char) → Except Mismatch (List Char)
  | [] => .error closest
  | s :: rest =>
    match readDeclaration s with
    | .ok name => .ok name
    | .error m => firstDeclared (closest.furthest m) rest

/-- The name of the service that a module declares, without the suffix. -/
def declaredName (source : String) : Except Mismatch String :=
  (firstDeclared .noExport (candidates source.toList)).map String.ofList

end ClientRegistry.Service
