/-!
# Documents

A TOML document is a table. Each key and each value keeps the bytes it was written in, because
messages point at them, and the entries of a table keep their order.
-/

set_option autoImplicit false

namespace ClientRegistry.Document

structure Span where
  start : Nat
  size : Nat
  deriving DecidableEq, Repr

structure Key where
  name : String
  span : Span
  deriving DecidableEq, Repr

/-- How a table came to be, which decides what may still be added to it. -/
inductive Origin where
  /-- By a header of its own. -/
  | header
  /-- As part of another header. -/
  | implied
  /-- By a dotted key. -/
  | dotted
  /-- Between braces. -/
  | inline
  deriving DecidableEq, Repr

inductive Value where
  | string (s : String)
  | integer (n : Int)
  | float (x : Float)
  | boolean (b : Bool)
  /-- A date, a time, or both. -/
  | moment
  | array (items : List (Span × Value))
  /-- Tables with the same header, in order. -/
  | tables (items : List (Span × Value))
  | table (origin : Origin) (entries : List (Key × Span × Value))
  deriving Inhabited

abbrev Entries := List (Key × Span × Value)

end ClientRegistry.Document
