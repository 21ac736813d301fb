import Mathlib.Algebra.Group.Nat.Defs

/-!
# The order of texts and of their bytes

Texts compare by the numbers of their characters, and just so by their bytes: of two characters the lesser one has
the lesser byte where their bytes first differ, and none of them begins with all bytes of another one.
-/

set_option autoImplicit false

namespace ClientRegistry.Text

variable {xs ys : List UInt8} {x y v w : Nat} {a b : String}

def bytes (s : String) : List UInt8 := s.toUTF8.data.toList

theorem bytes_eq (s : String) : bytes s = s.toList.flatMap String.utf8EncodeChar := by
  rw [bytes, String.toUTF8_eq_toByteArray, ← String.utf8Encode_toList, List.utf8Encode, List.data_toByteArray]

/-- The lists differ somewhere, both, and there the first one has the lesser byte. -/
inductive Precedes : List UInt8 → List UInt8 → Prop
  | here {b c : UInt8} {xs ys : List UInt8} (h : b < c) : Precedes (b :: xs) (c :: ys)
  | later {b : UInt8} {xs ys : List UInt8} (h : Precedes xs ys) : Precedes (b :: xs) (b :: ys)

namespace Precedes

theorem append (h : Precedes xs ys) (us vs : List UInt8) : Precedes (xs ++ us) (ys ++ vs) := by
  induction h with
  | here h => exact .here h
  | later _ ih => exact .later ih

theorem lt (h : Precedes xs ys) : xs < ys := by
  induction h with
  | here h => exact List.cons_lt_cons_iff.mpr (.inl h)
  | later _ ih => exact List.cons_lt_cons_iff.mpr (.inr ⟨rfl, ih⟩)

theorem of_digits (hy : y < 256) (h : x < y ∨ x = y ∧ Precedes xs ys) :
    Precedes (UInt8.ofNat x :: xs) (UInt8.ofNat y :: ys) := by
  rcases h with hLess | ⟨rfl, hRest⟩
  · refine .here (UInt8.lt_iff_toNat_lt.mpr ?_)
    rw [UInt8.toNat_ofNat', UInt8.toNat_ofNat']
    omega
  · exact .later hRest

end Precedes

/-! ### Characters -/

def continuation : Nat → Nat → List UInt8
  | 0, _ => []
  | n + 1, v => UInt8.ofNat (v / 64 ^ n % 64 + 128) :: continuation n v

theorem precedes_continuation {n : Nat} (hTop : v / 64 ^ n = w / 64 ^ n) (h : v < w) :
    Precedes (continuation n v) (continuation n w) := by
  induction n with
  | zero => omega
  | succ n ih =>
    refine .of_digits (by omega) ?_
    rw [Nat.pow_succ, ← Nat.div_div_eq_div_mul, ← Nat.div_div_eq_div_mul] at hTop
    have hLe : v / 64 ^ n ≤ w / 64 ^ n := Nat.div_le_div_right (Nat.le_of_lt h)
    by_cases hSame : v / 64 ^ n = w / 64 ^ n
    · exact .inr ⟨by rw [hSame], ih hSame⟩
    · exact .inl (by omega)

def encode (v : Nat) : List UInt8 :=
  if v ≤ 127 then UInt8.ofNat v :: continuation 0 v
  else if v ≤ 2047 then UInt8.ofNat (v / 64 % 32 + 192) :: continuation 1 v
  else if v ≤ 65535 then UInt8.ofNat (v / 4096 % 16 + 224) :: continuation 2 v
  else UInt8.ofNat (v / 262144 % 8 + 240) :: continuation 3 v

theorem utf8EncodeChar_eq (c : Char) : String.utf8EncodeChar c = encode c.val.toNat := by
  simp [String.utf8EncodeChar, encode, continuation]

theorem precedes_encode (h : v < w) (hw : w < 0x110000) : Precedes (encode v) (encode w) := by
  have hLead {n x y : Nat} (hy : y < 256) (hLess : v / 64 ^ n < w / 64 ^ n → x < y)
      (hSame : v / 64 ^ n = w / 64 ^ n → x = y) :
      Precedes (UInt8.ofNat x :: continuation n v) (UInt8.ofNat y :: continuation n w) := by
    refine .of_digits hy ?_
    rcases Nat.lt_or_eq_of_le (Nat.div_le_div_right (c := 64 ^ n) (Nat.le_of_lt h)) with hTop | hTop
    · exact .inl (hLess hTop)
    · exact .inr ⟨hSame hTop, precedes_continuation hTop h⟩
  have hLonger {xs ys : List UInt8} {x y : Nat} (hy : y < 256) (hLess : x < y) :
      Precedes (UInt8.ofNat x :: xs) (UInt8.ofNat y :: ys) := .of_digits hy (.inl hLess)
  unfold encode
  by_cases h1 : v ≤ 127
  · rw [if_pos h1]
    split
    · exact hLead (by omega) (by omega) (by omega)
    split
    · exact hLonger (by omega) (by omega)
    split <;> exact hLonger (by omega) (by omega)
  rw [if_neg h1, if_neg (by omega : ¬w ≤ 127)]
  by_cases h2 : v ≤ 2047
  · rw [if_pos h2]
    split
    · exact hLead (by omega) (by omega) (by omega)
    split <;> exact hLonger (by omega) (by omega)
  rw [if_neg h2, if_neg (by omega : ¬w ≤ 2047)]
  by_cases h3 : v ≤ 65535
  · rw [if_pos h3]
    split
    · exact hLead (by omega) (by omega) (by omega)
    · exact hLonger (by omega) (by omega)
  · rw [if_neg h3, if_neg (by omega : ¬w ≤ 65535)]
    exact hLead (by omega) (by omega) (by omega)

theorem precedes_utf8EncodeChar {c d : Char} (h : c < d) :
    Precedes (String.utf8EncodeChar c) (String.utf8EncodeChar d) := by
  have hValid := d.valid
  simp only [UInt32.isValidChar, Nat.isValidChar] at hValid
  rw [utf8EncodeChar_eq, utf8EncodeChar_eq]
  exact precedes_encode h (by omega)

/-! ### Texts -/

theorem flatMap_utf8EncodeChar_lt {s t : List Char} (h : s < t) :
    s.flatMap String.utf8EncodeChar < t.flatMap String.utf8EncodeChar := by
  induction h with
  | nil =>
    rename_i c t
    have hLength : 0 < (String.utf8EncodeChar c).length := by
      rw [String.length_utf8EncodeChar]
      exact c.utf8Size_pos
    obtain ⟨byte, more, hBytes⟩ := List.exists_cons_of_length_pos hLength
    rw [List.flatMap_nil, List.flatMap_cons, hBytes]
    exact .nil
  | rel hLess => exact ((precedes_utf8EncodeChar hLess).append _ _).lt
  | cons _ ih => exact List.append_left_lt ih

theorem bytes_lt_bytes_iff : bytes a < bytes b ↔ a < b := by
  have hLess {a b : String} (h : a < b) : bytes a < bytes b := by
    rw [bytes_eq, bytes_eq]
    exact flatMap_utf8EncodeChar_lt (String.lt_iff.mp h)
  refine ⟨fun h => Std.not_le.mp fun hLe => ?_, hLess⟩
  by_cases hSame : b = a
  · rw [hSame] at h
    exact List.lt_irrefl _ h
  · exact List.lt_asymm (hLess (Std.lt_of_le_of_ne hLe hSame)) h

end ClientRegistry.Text
