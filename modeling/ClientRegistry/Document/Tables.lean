import ClientRegistry.Document.Value

/-!
# Putting tables together

A header or a dotted key leads through tables to the place where something is added; tables that
are missing on the way are made. Nothing is defined twice, and a table is added to only in the way
in which it came to be. An array of tables stands for the last of its tables.
-/

set_option autoImplicit false

namespace ClientRegistry.Document

namespace Entries

def find? (es : Entries) (name : String) : Option (Span × Value) :=
  match es with
  | [] => none
  | (k, v) :: rest => if k.name = name then some v else find? rest name

/-- The entries with another value under a name that they hold. -/
def replace (es : Entries) (name : String) (v : Value) : Entries :=
  es.map fun (k, span, old) => if k.name = name then (k, span, v) else (k, span, old)

def erase (es : Entries) (name : String) : Entries := es.filter fun (k, _) => k.name != name

end Entries

def changeLast (change : Entries → Option Entries) : List (Span × Value) → Option (List (Span × Value))
  | [] => none
  | [(span, .table origin es)] => (change es).map fun es => [(span, .table origin es)]
  | [_] => none
  | item :: rest => (changeLast change rest).map (item :: ·)

/-- Changes the entries at the end of a path. Tables on the way that are missing get the given
origin, and `enter` says which tables may be entered, and whether as the last one. -/
def changeAt (made : Origin) (enter : Origin → Bool → Bool) (change : Entries → Option Entries) :
    List Key → Entries → Option Entries
  | [], es => change es
  | k :: path, es =>
    match Entries.find? es k.name with
    | none => do
      let inner ← changeAt made enter change path []
      some (es ++ [(k, k.span, .table made inner)])
    | some (_, .table origin inner) =>
      if enter origin path.isEmpty then do
        let inner ← changeAt made enter change path inner
        some (Entries.replace es k.name (.table origin inner))
      else none
    | some (_, .tables items) =>
      if enter .header path.isEmpty || !path.isEmpty then do
        let items ← changeLast (changeAt made enter change path) items
        some (Entries.replace es k.name (.tables items))
      else none
    | some _ => none

/-- Tables that a header may lead through: all but those between braces. -/
def enterForHeader (origin : Origin) (_ : Bool) : Bool := origin != .inline

/-- Tables that a dotted key may lead through: those without a header of their own, and as the
last one only those that came to be by dotted keys. -/
def enterForKey (origin : Origin) (last : Bool) : Bool :=
  match origin with
  | .dotted => true
  | .implied => !last
  | .header | .inline => false

def addNew (k : Key) (span : Span) (v : Value) (es : Entries) : Option Entries :=
  match Entries.find? es k.name with
  | none => some (es ++ [(k, span, v)])
  | some _ => none

def addPair (path : List Key) (k : Key) (span : Span) (v : Value) (es : Entries) : Option Entries :=
  changeAt .dotted enterForKey (addNew k span v) path es

/-- Opens the table of a header. A table that is already part of other headers is kept. -/
def openTable (k : Key) (span : Span) (es : Entries) : Option Entries :=
  match Entries.find? es k.name with
  | none => some (es ++ [(k, span, .table .header [])])
  | some (_, .table .implied inner) =>
    some (Entries.erase es k.name ++ [(k, span, .table .header inner)])
  | some _ => none

def openItem (k : Key) (span : Span) (es : Entries) : Option Entries :=
  match Entries.find? es k.name with
  | none => some (es ++ [(k, span, .tables [(span, .table .header [])])])
  | some (_, .tables items) => some (Entries.replace es k.name (.tables (items ++ [(span, .table .header [])])))
  | some _ => none

/-- Changes the entries of the table whose header was read last. -/
def changeOpen (change : Entries → Option Entries) (header : List Key) (es : Entries) : Option Entries :=
  changeAt .implied (fun _ _ => true) change header es

end ClientRegistry.Document
