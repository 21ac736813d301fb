import Mathlib.Data.List.Perm.Basic
import ClientRegistry.Proofs.Service.FirstDeclaration

/-!
# The closest miss

A module without a declaration is reported with the mismatch of the `export` that got furthest. So it misses
a part of the grammar, or a later one, exactly where all parts before that one follow some `export`, and the
order of the `export`s does not matter.
-/

set_option autoImplicit false

namespace ClientRegistry.Service

variable {s : List Char} {m part : Mismatch}

/-- A constant named `name` and the suffix, after `export`, and then `rest`. -/
def NamedThen (name rest s : List Char) : Prop :=
  name ≠ [] ∧ ∃ constant, ConstThen constant s ∧ IdentifierThen (name ++ suffix) rest constant

def GetsTo (s : List Char) : Mismatch → Prop
  | .noExport | .expectedConst => True
  | .expectedIdentifier => ∃ constant, ConstThen constant s
  | .missingServiceSuffix => ∃ constant identifier typed,
    ConstThen constant s ∧ IdentifierThen identifier typed constant
  | .expectedColon => ∃ name typed, NamedThen name typed s
  | .expectedDescriptorType => ∃ name typed type, NamedThen name typed s ∧ ColonThen type typed
  | .expectedTypeArguments => ∃ name typed type arguments,
    NamedThen name typed s ∧ ColonThen type typed ∧ TypeThen arguments type

structure ClosestMiss (source : List Char) (m : Mismatch) : Prop where
  noExport_iff : m = .noExport ↔ ¬ ∃ before after, ExportAt source before after
  part_iff : ∀ part, part ≠ .noExport →
    (part.progress ≤ m.progress ↔ ∃ before after, ExportAt source before after ∧ GetsTo after part)

/-! ### What the readers miss -/

theorem readDeclaration_of_constThen {constant : List Char} (h : ConstThen constant s) :
    readDeclaration s = readConstant constant := by
  obtain ⟨hHead, hWord⟩ := constThen_iff.mp h
  simp [readDeclaration, hHead, hWord]

theorem readDeclaration_of_not_constThen (h : ¬ ∃ constant, ConstThen constant s) :
    readDeclaration s = .error .expectedConst := by
  unfold readDeclaration
  split
  · rfl
  · rename_i hHead
    rcases hWord : splitWord (Text.dropBlanks s) with ⟨keyword, constant⟩
    dsimp only
    refine if_pos fun hKeyword => h ⟨constant, constThen_iff.mpr ⟨by simpa using hHead, ?_⟩⟩
    rw [hWord, hKeyword]

theorem readConstant_of_identifierThen {identifier typed : List Char} (h : IdentifierThen identifier typed s) :
    readConstant s =
      match baseName? identifier with
      | none => .error .missingServiceSuffix
      | some name => (readTypeOf typed).map fun _ => name := by
  obtain ⟨hIdentifier, hHead, hWord⟩ := identifierThen_iff.mp h
  simp only [readConstant, hHead, hWord, hIdentifier]
  rfl

theorem readConstant_of_not_identifierThen (h : ¬ ∃ identifier typed, IdentifierThen identifier typed s) :
    readConstant s = .error .expectedIdentifier := by
  unfold readConstant
  split
  · rfl
  · rename_i hHead
    rcases hWord : splitWord (Text.dropBlanks s) with ⟨identifier, typed⟩
    dsimp only
    refine if_pos ?_
    by_contra hIdentifier
    exact h ⟨identifier, typed, identifierThen_iff.mpr ⟨hIdentifier, by simpa using hHead, hWord⟩⟩

theorem readTypeOf_of_not_colonThen (h : ¬ ∃ type, ColonThen type s) : readTypeOf s = .error .expectedColon := by
  unfold readTypeOf
  split
  · rename_i type hColon
    exact absurd ⟨type, colonThen_iff.mpr hColon⟩ h
  · rfl

theorem readTypeOf_of_not_typeThen {type : List Char} (hColon : ColonThen type s)
    (h : ¬ ∃ arguments, TypeThen arguments type) : readTypeOf s = .error .expectedDescriptorType := by
  rcases hWord : splitWord (Text.dropBlanks type) with ⟨word, arguments⟩
  have hType : word ≠ descriptorType := by
    rintro rfl
    exact h ⟨arguments, typeThen_iff.mpr hWord⟩
  simp [readTypeOf, colonThen_iff.mp hColon, hWord, hType]

theorem readTypeOf_of_typeThen {type arguments : List Char} (hColon : ColonThen type s)
    (hType : TypeThen arguments type) (h : readTypeOf s = .error m) : m = .expectedTypeArguments := by
  simp only [readTypeOf, colonThen_iff.mp hColon, typeThen_iff.mp hType, ne_eq, not_true_eq_false, if_false] at h
  split at h
  · cases h
  · exact (Except.error.inj h).symm

theorem error_unique {α ε : Type} {e e' : ε} {r : Except ε α} (h : r = .error e) (h' : r = .error e') : e = e' :=
  Except.error.inj (h.symm.trans h')

theorem error_of_map {α β ε : Type} {f : α → β} {e : ε} {r : Except ε α} (h : r.map f = .error e) :
    r = .error e := by
  cases r with
  | ok a => cases h
  | error e' => exact congrArg Except.error (Except.error.inj h)

theorem readDeclaration_of_namedThen {name typed : List Char} (h : NamedThen name typed s) :
    readDeclaration s = (readTypeOf typed).map fun _ => name := by
  obtain ⟨hName, constant, hConst, hIdentifier⟩ := h
  have hBase : baseName? (name ++ suffix) = some name := baseName?_eq_some_iff.mpr ⟨rfl, hName⟩
  rw [readDeclaration_of_constThen hConst, readConstant_of_identifierThen hIdentifier, hBase]

/-! ### One candidate -/

theorem getsTo_of_readTypeOf {name typed : List Char} (hNamed : NamedThen name typed s)
    (h : readTypeOf typed = .error m) : GetsTo s m := by
  by_cases hColon : ∃ type, ColonThen type typed
  · obtain ⟨type, hColon⟩ := hColon
    by_cases hType : ∃ arguments, TypeThen arguments type
    · obtain ⟨arguments, hType⟩ := hType
      obtain rfl := readTypeOf_of_typeThen hColon hType h
      exact ⟨name, typed, type, arguments, hNamed, hColon, hType⟩
    · obtain rfl := error_unique (readTypeOf_of_not_typeThen hColon hType) h
      exact ⟨name, typed, type, hNamed, hColon⟩
  · obtain rfl := error_unique (readTypeOf_of_not_colonThen hColon) h
    exact ⟨name, typed, hNamed⟩

theorem getsTo_of_readConstant {constant : List Char} (hConst : ConstThen constant s)
    (h : readConstant constant = .error m) : GetsTo s m := by
  by_cases hIdentifier : ∃ identifier typed, IdentifierThen identifier typed constant
  · obtain ⟨identifier, typed, hIdentifier⟩ := hIdentifier
    rw [readConstant_of_identifierThen hIdentifier] at h
    split at h
    · obtain rfl := Except.error.inj h
      exact ⟨constant, identifier, typed, hConst, hIdentifier⟩
    · rename_i name hBase
      obtain ⟨rfl, hName⟩ := baseName?_eq_some_iff.mp hBase
      exact getsTo_of_readTypeOf ⟨hName, constant, hConst, hIdentifier⟩ (error_of_map h)
  · obtain rfl := error_unique (readConstant_of_not_identifierThen hIdentifier) h
    exact ⟨constant, hConst⟩

/-- A candidate has all parts before the one that it is found to miss. -/
theorem getsTo_of_readDeclaration (h : readDeclaration s = .error m) : GetsTo s m := by
  by_cases hConst : ∃ constant, ConstThen constant s
  · obtain ⟨constant, hConst⟩ := hConst
    rw [readDeclaration_of_constThen hConst] at h
    exact getsTo_of_readConstant hConst h
  · obtain rfl := error_unique (readDeclaration_of_not_constThen hConst) h
    trivial

theorem GetsTo.named (h : GetsTo s part) (hPart : 4 ≤ part.progress) : ∃ name typed, NamedThen name typed s := by
  cases part with
  | noExport | expectedConst | expectedIdentifier | missingServiceSuffix => exact absurd hPart (by decide)
  | expectedColon => exact h
  | expectedDescriptorType =>
    obtain ⟨name, typed, _, hNamed, -⟩ := h
    exact ⟨name, typed, hNamed⟩
  | expectedTypeArguments =>
    obtain ⟨name, typed, _, _, hNamed, -⟩ := h
    exact ⟨name, typed, hNamed⟩

theorem GetsTo.identified (h : GetsTo s part) (hPart : 3 ≤ part.progress) :
    ∃ constant identifier typed, ConstThen constant s ∧ IdentifierThen identifier typed constant := by
  rcases Nat.lt_or_ge part.progress 4 with hHere | hLater
  · cases part with
    | noExport | expectedConst | expectedIdentifier => exact absurd hPart (by decide)
    | missingServiceSuffix => exact h
    | expectedColon | expectedDescriptorType | expectedTypeArguments => exact absurd hHere (by decide)
  · obtain ⟨name, typed, -, constant, hConst, hIdentifier⟩ := h.named hLater
    exact ⟨constant, name ++ suffix, typed, hConst, hIdentifier⟩

theorem GetsTo.const (h : GetsTo s part) (hPart : 2 ≤ part.progress) : ∃ constant, ConstThen constant s := by
  rcases Nat.lt_or_ge part.progress 3 with hHere | hLater
  · cases part with
    | noExport | expectedConst => exact absurd hPart (by decide)
    | expectedIdentifier => exact h
    | missingServiceSuffix | expectedColon | expectedDescriptorType | expectedTypeArguments =>
      exact absurd hHere (by decide)
  · obtain ⟨constant, _, _, hConst, -⟩ := h.identified hLater
    exact ⟨constant, hConst⟩

/-- A candidate that has all parts before one has all parts before every earlier one. -/
theorem GetsTo.mono {earlier : Mismatch} (h : GetsTo s part) (hEarlier : earlier.progress ≤ part.progress) :
    GetsTo s earlier := by
  cases earlier with
  | noExport | expectedConst => trivial
  | expectedIdentifier => exact h.const hEarlier
  | missingServiceSuffix => exact h.identified hEarlier
  | expectedColon => exact h.named hEarlier
  | expectedDescriptorType =>
    cases part with
    | noExport | expectedConst | expectedIdentifier | missingServiceSuffix | expectedColon =>
      exact absurd hEarlier (by decide)
    | expectedDescriptorType => exact h
    | expectedTypeArguments =>
      obtain ⟨name, typed, type, _, hNamed, hColon, -⟩ := h
      exact ⟨name, typed, type, hNamed, hColon⟩
  | expectedTypeArguments =>
    cases part with
    | noExport | expectedConst | expectedIdentifier | missingServiceSuffix | expectedColon
    | expectedDescriptorType => exact absurd hEarlier (by decide)
    | expectedTypeArguments => exact h

theorem progress_of_readTypeOf (h : readTypeOf s = .error m) : 4 ≤ m.progress := by
  unfold readTypeOf at h
  split at h
  · dsimp only at h
    split at h
    · cases h
      decide
    · split at h
      · cases h
      · cases h
        decide
  · cases h
    decide

theorem progress_of_readConstant (h : readConstant s = .error m) : 2 ≤ m.progress := by
  by_cases hIdentifier : ∃ identifier typed, IdentifierThen identifier typed s
  · obtain ⟨identifier, typed, hIdentifier⟩ := hIdentifier
    rw [readConstant_of_identifierThen hIdentifier] at h
    split at h
    · cases h
      decide
    · exact Nat.le_trans (by decide) (progress_of_readTypeOf (error_of_map h))
  · obtain rfl := error_unique (readConstant_of_not_identifierThen hIdentifier) h
    decide

/-- A candidate is not found to miss a part that it has. -/
theorem progress_le_of_getsTo (h : readDeclaration s = .error m) (hPart : GetsTo s part) :
    part.progress ≤ m.progress := by
  cases part with
  | noExport => exact Nat.zero_le _
  | expectedConst =>
    by_cases hConst : ∃ constant, ConstThen constant s
    · obtain ⟨constant, hConst⟩ := hConst
      rw [readDeclaration_of_constThen hConst] at h
      exact Nat.le_trans (by decide) (progress_of_readConstant h)
    · obtain rfl := error_unique (readDeclaration_of_not_constThen hConst) h
      exact Nat.le_refl _
  | expectedIdentifier =>
    obtain ⟨constant, hConst⟩ := hPart
    rw [readDeclaration_of_constThen hConst] at h
    exact progress_of_readConstant h
  | missingServiceSuffix =>
    obtain ⟨constant, identifier, typed, hConst, hIdentifier⟩ := hPart
    rw [readDeclaration_of_constThen hConst, readConstant_of_identifierThen hIdentifier] at h
    split at h
    · cases h
      exact Nat.le_refl _
    · exact Nat.le_trans (by decide) (progress_of_readTypeOf (error_of_map h))
  | expectedColon =>
    obtain ⟨name, typed, hNamed⟩ := hPart
    rw [readDeclaration_of_namedThen hNamed] at h
    exact progress_of_readTypeOf (error_of_map h)
  | expectedDescriptorType =>
    obtain ⟨name, typed, type, hNamed, hColon⟩ := hPart
    rw [readDeclaration_of_namedThen hNamed] at h
    by_cases hType : ∃ arguments, TypeThen arguments type
    · obtain ⟨arguments, hType⟩ := hType
      rw [readTypeOf_of_typeThen hColon hType (error_of_map h)]
      decide
    · obtain rfl := error_unique (readTypeOf_of_not_typeThen hColon hType) (error_of_map h)
      exact Nat.le_refl _
  | expectedTypeArguments =>
    obtain ⟨name, typed, type, arguments, hNamed, hColon, hType⟩ := hPart
    rw [readDeclaration_of_namedThen hNamed] at h
    obtain rfl := readTypeOf_of_typeThen hColon hType (error_of_map h)
    exact Nat.le_refl _

theorem getsTo_iff (h : readDeclaration s = .error m) : GetsTo s part ↔ part.progress ≤ m.progress :=
  ⟨progress_le_of_getsTo h, (getsTo_of_readDeclaration h).mono⟩

/-! ### All candidates -/

theorem Mismatch.progress_furthest (a b : Mismatch) : (a.furthest b).progress = max a.progress b.progress := by
  by_cases h : b < a
  · rw [furthest, if_pos h]
    exact (Nat.max_eq_left (Nat.le_of_lt h)).symm
  · rw [furthest, if_neg h]
    exact (Nat.max_eq_right (Nat.le_of_not_lt h)).symm

theorem Mismatch.eq_of_progress {a b : Mismatch} (h : a.progress = b.progress) : a = b := by
  cases a <;> cases b <;> simp_all [progress]

theorem le_progress_iff {closest : Mismatch} {cs : List (List Char)} (h : firstDeclared closest cs = .error m)
    (n : Nat) :
    n ≤ m.progress ↔ n ≤ closest.progress ∨ ∃ found ∈ cs.map readDeclaration, ∃ m', found = .error m' ∧
      n ≤ m'.progress := by
  induction cs generalizing closest with
  | nil =>
    obtain rfl : closest = m := Except.error.inj h
    simp
  | cons s rest ih =>
    rw [firstDeclared] at h
    cases hRead : readDeclaration s with
    | ok name =>
      rw [hRead] at h
      cases h
    | error first =>
      rw [hRead] at h
      have hMax : n ≤ (closest.furthest first).progress ↔ n ≤ closest.progress ∨ n ≤ first.progress := by
        rw [Mismatch.progress_furthest]
        omega
      rw [ih h, hMax, or_assoc]
      simp [hRead]

theorem exists_error_of_firstDeclared {closest : Mismatch} {cs : List (List Char)}
    (h : firstDeclared closest cs = .error m) : ∀ found ∈ cs.map readDeclaration, ∃ m', found = .error m' := by
  intro found hFound
  obtain ⟨s, hs, rfl⟩ := List.mem_map.mp hFound
  cases hRead : readDeclaration s with
  | ok name => exact absurd (readDeclaration_eq_ok_iff.mp hRead) (not_declaration_of_error h s hs name)
  | error m' => exact ⟨m', rfl⟩

/-- A search that finds nothing reports the same whatever the order in which the candidates were read. -/
theorem firstDeclared_eq_error_of_perm {closest : Mismatch} {cs cs' : List (List Char)}
    (h : firstDeclared closest cs = .error m) (hPerm : (cs'.map readDeclaration).Perm (cs.map readDeclaration)) :
    firstDeclared closest cs' = .error m := by
  cases hOther : firstDeclared closest cs' with
  | ok name =>
    obtain ⟨after, hAfter, found, hFound⟩ := exists_firstDeclared_iff.mp ⟨name, hOther⟩
    rw [← readDeclaration_eq_ok_iff] at hFound
    have hMem := hPerm.mem_iff.mp (List.mem_map_of_mem hAfter)
    obtain ⟨m', hError⟩ := exists_error_of_firstDeclared h _ hMem
    rw [hFound] at hError
    cases hError
  | error m' =>
    have hSame (n : Nat) : n ≤ m'.progress ↔ n ≤ m.progress := by
      rw [le_progress_iff hOther, le_progress_iff h]
      simp only [hPerm.mem_iff]
    have hProgress : m'.progress = m.progress :=
      Nat.le_antisymm ((hSame _).mp (Nat.le_refl _)) ((hSame _).mpr (Nat.le_refl _))
    rw [Mismatch.eq_of_progress hProgress]

theorem declaredName_eq_error_iff {source : String} :
    declaredName source = .error m ↔ firstDeclared .noExport (candidates source.toList) = .error m := by
  unfold declaredName
  cases firstDeclared .noExport (candidates source.toList) <;> simp [Except.map]

theorem closestMiss_of_firstDeclared {source : List Char}
    (h : firstDeclared .noExport (candidates source) = .error m) : ClosestMiss source m := by
  have hPart (part : Mismatch) (hExport : part ≠ .noExport) :
      part.progress ≤ m.progress ↔ ∃ before after, ExportAt source before after ∧ GetsTo after part := by
    have hNotZero : ¬ part.progress ≤ Mismatch.noExport.progress := fun hZero =>
      hExport (Mismatch.eq_of_progress (Nat.le_zero.mp hZero))
    rw [le_progress_iff h, or_iff_right hNotZero]
    constructor
    · rintro ⟨found, hFound, m', rfl, hLe⟩
      obtain ⟨after, hAfter, hRead⟩ := List.mem_map.mp hFound
      obtain ⟨before, hAt⟩ := mem_candidates_iff.mp hAfter
      exact ⟨before, after, hAt, (getsTo_iff hRead).mpr hLe⟩
    · rintro ⟨before, after, hAt, hGets⟩
      have hMem := List.mem_map_of_mem (f := readDeclaration) (mem_candidates_iff.mpr ⟨before, hAt⟩)
      obtain ⟨m', hRead⟩ := exists_error_of_firstDeclared h _ hMem
      exact ⟨_, hMem, m', hRead, (getsTo_iff hRead).mp hGets⟩
  refine ⟨?_, hPart⟩
  have hConst := hPart .expectedConst (by decide)
  simp only [GetsTo, and_true] at hConst
  rw [← hConst]
  cases m <;> decide

/-- What is reported of a module without a declaration is the closest miss, and the same for every other
module whose candidates miss the same parts, in whatever order. -/
theorem closestMiss_of_declaredName {source : String} (h : declaredName source = .error m) :
    ClosestMiss source.toList m ∧
      ∀ other : String, ((candidates other.toList).map readDeclaration).Perm
        ((candidates source.toList).map readDeclaration) → declaredName other = .error m := by
  rw [declaredName_eq_error_iff] at h
  refine ⟨closestMiss_of_firstDeclared h, fun other hPerm => ?_⟩
  rw [declaredName_eq_error_iff]
  exact firstDeclared_eq_error_of_perm h hPerm

/-- The second `export` gets furthest, here and where the two are exchanged. -/
theorem closestMiss_exchanged :
    ClosestMiss "export type A = 1;\nexport const FooService = x;".toList .expectedColon ∧
      declaredName "export const FooService = x;\nexport type A = 1;" = .error .expectedColon := by
  have hMiss : declaredName "export type A = 1;\nexport const FooService = x;" = .error .expectedColon := rfl
  obtain ⟨hClosest, hOthers⟩ := closestMiss_of_declaredName hMiss
  exact ⟨hClosest, hOthers _ (List.Perm.swap _ _ _)⟩

end ClientRegistry.Service
