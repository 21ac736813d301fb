/-!
# Sizes in bytes
-/

set_option autoImplicit false

namespace ClientRegistry.Text

def byteCount : List Char → Nat
  | [] => 0
  | c :: s => c.utf8Size + byteCount s

@[simp] theorem byteCount_nil : byteCount [] = 0 := rfl

theorem byteCount_append (s t : List Char) : byteCount (s ++ t) = byteCount s + byteCount t := by
  induction s with
  | nil => simp
  | cons c s ih => simp [byteCount, ih, Nat.add_assoc]

end ClientRegistry.Text
