/-!
# Lossy decoding of UTF-8

Bytes that are no UTF-8 are shown as replacement characters: one for each longest piece that
could still have begun a character, and one for each byte that begins none.
-/

set_option autoImplicit false

namespace ClientRegistry.Text.Utf8

def replacement : Char := Char.ofNat 0xFFFD

/-- A character of which some bytes have been read: the value so far, how many bytes are owed,
and the least and the greatest value of the next one. -/
structure Pending where
  value : Nat
  owed : Nat
  low : Nat
  high : Nat

/-- What a byte does between characters: the characters it shows, and the one it begins. -/
def begins (b : Nat) : List Char × Option Pending :=
  if b ≤ 0x7F then ([Char.ofNat b], none)
  else if 0xC2 ≤ b && b ≤ 0xDF then ([], some ⟨b - 0xC0, 1, 0x80, 0xBF⟩)
  else if b == 0xE0 then ([], some ⟨0, 2, 0xA0, 0xBF⟩)
  else if b == 0xED then ([], some ⟨0xD, 2, 0x80, 0x9F⟩)
  else if 0xE1 ≤ b && b ≤ 0xEF then ([], some ⟨b - 0xE0, 2, 0x80, 0xBF⟩)
  else if b == 0xF0 then ([], some ⟨0, 3, 0x90, 0xBF⟩)
  else if 0xF1 ≤ b && b ≤ 0xF3 then ([], some ⟨b - 0xF0, 3, 0x80, 0xBF⟩)
  else if b == 0xF4 then ([], some ⟨4, 3, 0x80, 0x8F⟩)
  else ([replacement], none)

def decodeFrom : Option Pending → List UInt8 → List Char
  | none, [] => []
  | some _, [] => [replacement]
  | none, b :: rest => (begins b.toNat).1 ++ decodeFrom (begins b.toNat).2 rest
  | some p, b :: rest =>
    if p.low ≤ b.toNat && b.toNat ≤ p.high then
      if p.owed ≤ 1 then Char.ofNat (p.value * 64 + (b.toNat - 0x80)) :: decodeFrom none rest
      else decodeFrom (some ⟨p.value * 64 + (b.toNat - 0x80), p.owed - 1, 0x80, 0xBF⟩) rest
    else replacement :: (begins b.toNat).1 ++ decodeFrom (begins b.toNat).2 rest

/-- The text of a byte sequence, with replacement characters where it is no UTF-8. -/
def decodeLossy (bytes : ByteArray) : String :=
  String.ofList (decodeFrom none bytes.toList)

end ClientRegistry.Text.Utf8
