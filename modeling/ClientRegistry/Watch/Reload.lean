import ClientRegistry.Log
import ClientRegistry.Wire.Reader

/-!
# Reload signals

After each successful regeneration the connected clients are told to load everything again. On
the wire the signal is an object whose field `type` names it; an array of the name alone is read
as well.
-/

set_option autoImplicit false

namespace ClientRegistry.Watch

inductive Reload where
  | full
  deriving DecidableEq, Repr

namespace Reload

def tag : Reload → String
  | full => "full-reload"

def wireText (r : Reload) : String := "\x7b\"type\":\"" ++ r.tag ++ "\"\x7d"

def ofTag? (tag : String) : Option Reload := if tag = full.tag then some full else none

/-- The signal that a value stands for. Its name is given once; other fields do not count. -/
def ofValue? : Wire.Value → Option Reload
  | .object fields =>
    match Wire.Value.fieldsNamed "type" fields with
    | [.string tag] => ofTag? tag
    | _ => none
  | .array [.string tag] => ofTag? tag
  | _ => none

def ofText? (text : String) : Option Reload := (Wire.read text).bind ofValue?

end Reload

inductive Sink where
  | broadcast
  | queue
  deriving DecidableEq, Repr

def Sink.unheard : Sink → String
  | broadcast => "No reload subscribers"
  | queue => "Reload receiver closed"

end ClientRegistry.Watch
