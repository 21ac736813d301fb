/-!
# Blanks

White space is the Unicode property `White_Space`. Trimming and splitting use this property
and no narrower class, so a no-break space is as blank as a space.
-/

set_option autoImplicit false

namespace ClientRegistry.Text

/-- The characters with the Unicode property `White_Space`. -/
def isBlank (c : Char) : Bool :=
  (0x09 ≤ c.toNat && c.toNat ≤ 0x0D) || c.toNat == 0x20 || c.toNat == 0x85 || c.toNat == 0xA0 ||
  c.toNat == 0x1680 || (0x2000 ≤ c.toNat && c.toNat ≤ 0x200A) || c.toNat == 0x2028 ||
  c.toNat == 0x2029 || c.toNat == 0x202F || c.toNat == 0x205F || c.toNat == 0x3000

def dropBlanks (s : List Char) : List Char := s.dropWhile isBlank

def dropEndBlanks (s : List Char) : List Char := (s.reverse.dropWhile isBlank).reverse

def trim (s : String) : String := String.ofList (dropEndBlanks (dropBlanks s.toList))

/-- Nothing but blanks, or nothing at all. -/
def allBlank (s : String) : Bool := s.toList.all isBlank

def words (s : String) : List String :=
  ((s.toList.splitOnP isBlank).filter (· ≠ [])).map String.ofList

theorem dropBlanks_of_not_blank {c : Char} (h : isBlank c = false) (s : List Char) :
    dropBlanks (c :: s) = c :: s := by
  simp [dropBlanks, h]

theorem takeWhile_append_dropBlanks (s : List Char) : s.takeWhile isBlank ++ dropBlanks s = s :=
  List.takeWhile_append_dropWhile

end ClientRegistry.Text
