import ClientRegistry.Text.Unseen

/-!
# Escaped text

A text as it is shown within a message: between double quotes, with an escape for each quote, each
backslash, and each character that could not be seen.
-/

set_option autoImplicit false

namespace ClientRegistry.Text

def codePointEscape (c : Char) : String :=
  "\\u\x7b" ++ String.ofList (Nat.toDigits 16 c.toNat) ++ "\x7d"

def escapedChar (c : Char) : String :=
  if c = '"' then "\\\""
  else if c = '\\' then "\\\\"
  else if c = '\n' then "\\n"
  else if c = '\r' then "\\r"
  else if c = '\t' then "\\t"
  else if c = Char.ofNat 0 then "\\0"
  else if isUnseen c then codePointEscape c
  else c.toString

def escaped (s : String) : String := "\"" ++ String.join (s.toList.map escapedChar) ++ "\""

def escapedPath (s : String) : String :=
  "\"" ++ String.join (s.toList.map fun c => if c = '\'' then "\\'" else escapedChar c) ++ "\""

end ClientRegistry.Text
