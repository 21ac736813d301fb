/-!
# Log lines

What the program tells about its work, in order.
-/

set_option autoImplicit false

namespace ClientRegistry

namespace Log

inductive Level where
  | error
  | warn
  | info
  | debug
  deriving DecidableEq, Repr

structure Line where
  level : Level
  text : String
  deriving DecidableEq, Repr

def error (text : String) : Line := ⟨.error, text⟩

def warn (text : String) : Line := ⟨.warn, text⟩

def info (text : String) : Line := ⟨.info, text⟩

def debug (text : String) : Line := ⟨.debug, text⟩

end Log

abbrev Log := List Log.Line

end ClientRegistry
