import ClientRegistry.Text.Lines

/-!
# Reports

A report says what is shown, item by item; on a terminal each item is one line. Warnings go to
the error output.
-/

set_option autoImplicit false

namespace ClientRegistry.Report

inductive Item where
  | heading (name : String)
  | keyValue (key value : String)
  | added (text : String)
  | removed (text : String)
  | warning (text : String)
  | plain (text : String)
  | blank
  deriving DecidableEq, Repr

namespace Item

def outputLine? : Item → Option String
  | heading name => some (name ++ ":")
  | keyValue key value => some (key ++ ": " ++ value)
  | added text => some ("  + " ++ text)
  | removed text => some ("  - " ++ text)
  | warning _ => none
  | plain text => some text
  | blank => some ""

def errorLine? : Item → Option String
  | warning text => some ("warning: " ++ text)
  | _ => none

end Item

def outputText (items : List Item) : String := Text.ofLines (items.filterMap Item.outputLine?)

def errorText (items : List Item) : String := Text.ofLines (items.filterMap Item.errorLine?)

end ClientRegistry.Report
