import ClientRegistry.Text.Case

/-!
# Texts that differ in the case of their first character

Two texts have the same lower-case beginning just where they are equal, or begin with the two forms
of one of the letters A to Z and go on alike.
-/

set_option autoImplicit false

namespace ClientRegistry.Text

def IsCapitalOf (c d : Char) : Prop := 'A'.toNat ≤ c.toNat ∧ c.toNat ≤ 'Z'.toNat ∧ d.toNat = c.toNat + 32

instance (c d : Char) : Decidable (IsCapitalOf c d) :=
  inferInstanceAs (Decidable ('A'.toNat ≤ c.toNat ∧ c.toNat ≤ 'Z'.toNat ∧ d.toNat = c.toNat + 32))

def SameLetter (c d : Char) : Prop := c = d ∨ IsCapitalOf c d ∨ IsCapitalOf d c

def SameButFirstCase (s t : String) : Prop :=
  s = t ∨ ∃ c d rest, SameLetter c d ∧ s.toList = c :: rest ∧ t.toList = d :: rest

theorem toNat_toLower (c : Char) :
    c.toLower.toNat = if 'A'.toNat ≤ c.toNat ∧ c.toNat ≤ 'Z'.toNat then c.toNat + 32 else c.toNat := by
  unfold Char.toLower
  split
  · rename_i hCapital
    refine Eq.trans ?_ (if_pos hCapital).symm
    have hHigh : c.toNat ≤ 'Z'.toNat := hCapital.2
    have hSmall : (c.val + ('a'.val - 'A'.val)).toNat = c.toNat + 32 :=
      Nat.mod_eq_of_lt (Nat.lt_of_le_of_lt (Nat.add_le_add_right hHigh 32) (by decide))
    exact hSmall
  · rename_i hOther
    exact (if_neg hOther).symm

theorem toLower_eq_iff {c d : Char} : c.toLower = d.toLower ↔ SameLetter c d := by
  have hA : 'A'.toNat = 65 := rfl
  have hZ : 'Z'.toNat = 90 := rfl
  rw [SameLetter, IsCapitalOf, IsCapitalOf, ← Char.toNat_inj, ← Char.toNat_inj, toNat_toLower, toNat_toLower]
  split <;> split <;> omega

theorem toList_lowerFirst_cons {s : String} {c : Char} {rest : List Char} (h : s.toList = c :: rest) :
    (lowerFirst s).toList = c.toLower :: rest := by
  rw [lowerFirst, h]
  exact String.toList_ofList

theorem lowerFirst_empty : lowerFirst "" = "" := rfl

/-- Lower-case beginnings forget the case of the first character and nothing else. -/
theorem lowerFirst_eq_iff {s t : String} : lowerFirst s = lowerFirst t ↔ SameButFirstCase s t := by
  constructor
  · intro h
    rw [← String.toList_inj] at h
    cases hs : s.toList with
    | nil =>
      obtain rfl := String.toList_eq_nil_iff.mp hs
      cases ht : t.toList with
      | nil => exact .inl (String.toList_eq_nil_iff.mp ht).symm
      | cons d rest =>
        rw [lowerFirst_empty, toList_lowerFirst_cons ht] at h
        cases h
    | cons c rest =>
      cases ht : t.toList with
      | nil =>
        obtain rfl := String.toList_eq_nil_iff.mp ht
        rw [lowerFirst_empty, toList_lowerFirst_cons hs] at h
        cases h
      | cons d rest' =>
        rw [toList_lowerFirst_cons hs, toList_lowerFirst_cons ht] at h
        obtain ⟨hLetter, rfl⟩ := List.cons.inj h
        exact .inr ⟨c, d, rest, toLower_eq_iff.mp hLetter, hs, ht⟩
  · rintro (rfl | ⟨c, d, rest, hLetter, hs, ht⟩)
    · rfl
    · rw [← String.toList_inj, toList_lowerFirst_cons hs, toList_lowerFirst_cons ht, toLower_eq_iff.mpr hLetter]

end ClientRegistry.Text
