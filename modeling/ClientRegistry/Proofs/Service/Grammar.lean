import ClientRegistry.Service.Declaration

/-!
# The grammar of service declarations

The grammar is said part by part, each as a relation between a text and what is left of it after
the part. The reader accepts a text after `export` just where the grammar does, and with the same
name.
-/

set_option autoImplicit false

namespace ClientRegistry.Service

def BlanksThen (rest s : List Char) : Prop :=
  ∃ blanks, s = blanks ++ rest ∧ ∀ c ∈ blanks, Text.isBlank c = true

def SomeBlanksThen (rest s : List Char) : Prop :=
  ∃ blanks, blanks ≠ [] ∧ s = blanks ++ rest ∧ ∀ c ∈ blanks, Text.isBlank c = true

structure WordThen (word rest s : List Char) : Prop where
  text : s = word ++ rest
  chars : ∀ c ∈ word, isWordChar c = true
  maximal : ∀ c, rest.head? = some c → isWordChar c = false

def ConstThen (rest s : List Char) : Prop :=
  ∃ t, SomeBlanksThen t s ∧ WordThen "const".toList rest t

def IdentifierThen (identifier rest s : List Char) : Prop :=
  identifier ≠ [] ∧ ∃ t, SomeBlanksThen t s ∧ WordThen identifier rest t

def ColonThen (rest s : List Char) : Prop := BlanksThen (':' :: rest) s

def TypeThen (rest s : List Char) : Prop := ∃ t, BlanksThen t s ∧ WordThen descriptorType rest t

def ArgumentsThen (rest s : List Char) : Prop := BlanksThen ('<' :: rest) s

def TypedAsService (s : List Char) : Prop :=
  ∃ type arguments rest, ColonThen type s ∧ TypeThen arguments type ∧ ArgumentsThen rest arguments

def Declaration (name s : List Char) : Prop :=
  name ≠ [] ∧ ∃ constant typed, ConstThen constant s ∧
    IdentifierThen (name ++ suffix) typed constant ∧ TypedAsService typed

/-- `export` stands after `before`, at the start of a word, and `after` follows it. -/
structure ExportAt (source before after : List Char) : Prop where
  text : source = before ++ "export".toList ++ after
  opens : ∀ c, before.getLast? = some c → isWordChar c = false

/-! ### Blanks and words -/

theorem toNat_of_isWordChar {c : Char} (h : isWordChar c = true) : 0x30 ≤ c.toNat ∧ c.toNat ≤ 0x7A := by
  have hRanges : ((decide ('A'.val ≤ c.val ∧ c.val ≤ 'Z'.val) || 'a'.val ≤ c.val && c.val ≤ 'z'.val) ||
      '0'.val ≤ c.val && c.val ≤ '9'.val || c == '_') = true := h
  simp only [Bool.or_eq_true, Bool.and_eq_true, decide_eq_true_eq, beq_iff_eq, UInt32.le_iff_toNat_le,
    Char.reduceVal, UInt32.reduceToNat] at hRanges
  rcases hRanges with ((⟨hLow, hHigh⟩ | ⟨hLow, hHigh⟩) | ⟨hLow, hHigh⟩) | rfl
  · exact ⟨by rw [Char.toNat]; omega, by rw [Char.toNat]; omega⟩
  · exact ⟨by rw [Char.toNat]; omega, by rw [Char.toNat]; omega⟩
  · exact ⟨by rw [Char.toNat]; omega, by rw [Char.toNat]; omega⟩
  · decide

theorem not_isBlank_of_isWordChar {c : Char} (h : isWordChar c = true) : Text.isBlank c = false := by
  obtain ⟨hLow, hHigh⟩ := toNat_of_isWordChar h
  rw [Bool.eq_false_iff]
  simp only [Text.isBlank, ne_eq, Bool.or_eq_true, Bool.and_eq_true, decide_eq_true_eq, beq_iff_eq]
  omega

theorem takeWhile_append_stop {p : Char → Bool} {word rest : List Char} (hWord : ∀ c ∈ word, p c = true)
    (hRest : ∀ c, rest.head? = some c → p c = false) : (word ++ rest).takeWhile p = word := by
  rw [List.takeWhile_append_of_pos hWord]
  cases rest with
  | nil => simp
  | cons c rest => simp [hRest c rfl]

theorem dropWhile_append_stop {p : Char → Bool} {word rest : List Char} (hWord : ∀ c ∈ word, p c = true)
    (hRest : ∀ c, rest.head? = some c → p c = false) : (word ++ rest).dropWhile p = rest := by
  rw [List.dropWhile_append_of_pos hWord]
  cases rest with
  | nil => rfl
  | cons c rest => simp [hRest c rfl]

theorem splitWord_eq_iff {word rest s : List Char} : splitWord s = (word, rest) ↔ WordThen word rest s := by
  constructor
  · intro h
    obtain ⟨hWord, hRest⟩ := Prod.mk.inj h
    refine ⟨?_, ?_, ?_⟩
    · rw [← hWord, ← hRest, List.takeWhile_append_dropWhile]
    · rw [← hWord]
      exact List.all_eq_true.mp List.all_takeWhile
    · intro c hc
      have hStop := List.head?_dropWhile_not isWordChar s
      rw [hRest, hc] at hStop
      exact hStop
  · rintro ⟨rfl, hChars, hMaximal⟩
    rw [splitWord, takeWhile_append_stop hChars hMaximal, dropWhile_append_stop hChars hMaximal]

theorem blanksThen_dropBlanks (s : List Char) : BlanksThen (Text.dropBlanks s) s :=
  ⟨s.takeWhile Text.isBlank, (Text.takeWhile_append_dropBlanks s).symm,
    List.all_eq_true.mp List.all_takeWhile⟩

theorem dropBlanks_of_blanksThen {rest s : List Char} (h : BlanksThen rest s)
    (hRest : ∀ c, rest.head? = some c → Text.isBlank c = false) : Text.dropBlanks s = rest := by
  obtain ⟨blanks, rfl, hBlanks⟩ := h
  exact dropWhile_append_stop hBlanks hRest

theorem blanksThen_cons_iff {c : Char} (hc : Text.isBlank c = false) {rest s : List Char} :
    BlanksThen (c :: rest) s ↔ Text.dropBlanks s = c :: rest := by
  constructor
  · intro h
    exact dropBlanks_of_blanksThen h (by simpa using hc)
  · intro h
    rw [← h]
    exact blanksThen_dropBlanks s

theorem WordThen.head_not_isBlank {word rest s : List Char} (h : WordThen word rest s) (hWord : word ≠ []) :
    ∀ c, s.head? = some c → Text.isBlank c = false := by
  obtain ⟨first, others, rfl⟩ := List.exists_cons_of_ne_nil hWord
  intro c hc
  rw [h.text] at hc
  cases hc
  exact not_isBlank_of_isWordChar (h.chars first List.mem_cons_self)

theorem word_after_blanks_iff {word rest s : List Char} (hWord : word ≠ []) :
    (∃ t, BlanksThen t s ∧ WordThen word rest t) ↔ splitWord (Text.dropBlanks s) = (word, rest) := by
  rw [splitWord_eq_iff]
  constructor
  · rintro ⟨t, hBlanks, hThen⟩
    rwa [dropBlanks_of_blanksThen hBlanks (hThen.head_not_isBlank hWord)]
  · intro h
    exact ⟨Text.dropBlanks s, blanksThen_dropBlanks s, h⟩

theorem someBlanksThen_iff {rest s : List Char} (hRest : ∀ c, rest.head? = some c → Text.isBlank c = false) :
    SomeBlanksThen rest s ↔ (s.head?.all fun c => !Text.isBlank c) = false ∧ BlanksThen rest s := by
  constructor
  · rintro ⟨blanks, hSome, rfl, hBlanks⟩
    refine ⟨?_, blanks, rfl, hBlanks⟩
    obtain ⟨first, others, rfl⟩ := List.exists_cons_of_ne_nil hSome
    simp [hBlanks first List.mem_cons_self]
  · rintro ⟨hHead, blanks, rfl, hBlanks⟩
    refine ⟨blanks, ?_, rfl, hBlanks⟩
    rintro rfl
    cases rest with
    | nil => simp at hHead
    | cons c rest => simp [hRest c rfl] at hHead

theorem word_after_some_blanks_iff {word rest s : List Char} (hWord : word ≠ []) :
    (∃ t, SomeBlanksThen t s ∧ WordThen word rest t) ↔
      (s.head?.all fun c => !Text.isBlank c) = false ∧ splitWord (Text.dropBlanks s) = (word, rest) := by
  rw [← word_after_blanks_iff hWord]
  constructor
  · rintro ⟨t, hBlanks, hThen⟩
    obtain ⟨hHead, hSome⟩ := (someBlanksThen_iff (hThen.head_not_isBlank hWord)).mp hBlanks
    exact ⟨hHead, t, hSome, hThen⟩
  · rintro ⟨hHead, t, hBlanks, hThen⟩
    exact ⟨t, (someBlanksThen_iff (hThen.head_not_isBlank hWord)).mpr ⟨hHead, hBlanks⟩, hThen⟩

/-! ### The parts of a declaration -/

theorem constThen_iff {rest s : List Char} :
    ConstThen rest s ↔
      (s.head?.all fun c => !Text.isBlank c) = false ∧ splitWord (Text.dropBlanks s) = ("const".toList, rest) :=
  word_after_some_blanks_iff (by decide)

theorem identifierThen_iff {identifier rest s : List Char} :
    IdentifierThen identifier rest s ↔
      identifier ≠ [] ∧ (s.head?.all fun c => !Text.isBlank c) = false ∧
        splitWord (Text.dropBlanks s) = (identifier, rest) := by
  unfold IdentifierThen
  by_cases hNil : identifier = []
  · simp [hNil]
  · rw [word_after_some_blanks_iff hNil]

theorem colonThen_iff {rest s : List Char} : ColonThen rest s ↔ Text.dropBlanks s = ':' :: rest :=
  blanksThen_cons_iff (by decide)

theorem typeThen_iff {rest s : List Char} :
    TypeThen rest s ↔ splitWord (Text.dropBlanks s) = (descriptorType, rest) :=
  word_after_blanks_iff (by decide)

theorem argumentsThen_iff {rest s : List Char} : ArgumentsThen rest s ↔ Text.dropBlanks s = '<' :: rest :=
  blanksThen_cons_iff (by decide)

theorem baseName?_eq_some_iff {identifier name : List Char} :
    baseName? identifier = some name ↔ identifier = name ++ suffix ∧ name ≠ [] := by
  unfold baseName?
  constructor
  · intro h
    obtain ⟨hCond, hName⟩ := Option.ite_none_right_eq_some.mp h
    rw [Bool.and_eq_true, List.isSuffixOf_iff_suffix, decide_eq_true_eq] at hCond
    obtain ⟨⟨base, rfl⟩, hLength⟩ := hCond
    rw [List.length_append] at hLength
    have hBase : base = name := by simpa using hName
    rw [← hBase]
    exact ⟨rfl, List.ne_nil_of_length_pos (by omega)⟩
  · rintro ⟨rfl, hName⟩
    have hLength : 0 < name.length := List.length_pos_iff.mpr hName
    rw [if_pos]
    · simp
    · rw [Bool.and_eq_true, List.isSuffixOf_iff_suffix, decide_eq_true_eq, List.length_append]
      exact ⟨List.suffix_append name suffix, by omega⟩

theorem readTypeOf_eq_ok_iff {s : List Char} : readTypeOf s = .ok () ↔ TypedAsService s := by
  simp only [TypedAsService, colonThen_iff, typeThen_iff, argumentsThen_iff]
  constructor
  · intro h
    unfold readTypeOf at h
    split at h
    · rename_i type hColon
      rcases hWord : splitWord (Text.dropBlanks type) with ⟨word, arguments⟩
      simp only [hWord] at h
      split at h
      · cases h
      · rename_i hType
        split at h
        · rename_i rest hArguments
          refine ⟨type, arguments, rest, hColon, ?_, hArguments⟩
          rw [hWord, Decidable.not_not.mp hType]
        · cases h
    · cases h
  · rintro ⟨type, arguments, rest, hColon, hType, hArguments⟩
    simp [readTypeOf, hColon, hType, hArguments]

theorem readConstant_eq_ok_iff {s name : List Char} :
    readConstant s = .ok name ↔
      name ≠ [] ∧ ∃ typed, IdentifierThen (name ++ suffix) typed s ∧ TypedAsService typed := by
  simp only [identifierThen_iff]
  constructor
  · intro h
    unfold readConstant at h
    split at h
    · cases h
    · rename_i hHead
      rcases hWord : splitWord (Text.dropBlanks s) with ⟨identifier, typed⟩
      simp only [hWord] at h
      split at h
      · cases h
      · rename_i hIdentifier
        split at h
        · cases h
        · rename_i base hBase
          obtain ⟨rfl, hName⟩ := baseName?_eq_some_iff.mp hBase
          cases hType : readTypeOf typed with
          | error m =>
            rw [hType] at h
            cases h
          | ok =>
            rw [hType] at h
            obtain rfl : base = name := Except.ok.inj h
            exact ⟨hName, typed, ⟨hIdentifier, by simpa using hHead, rfl⟩, readTypeOf_eq_ok_iff.mp hType⟩
  · rintro ⟨hName, typed, ⟨hIdentifier, hHead, hWord⟩, hTyped⟩
    have hBase : baseName? (name ++ suffix) = some name := baseName?_eq_some_iff.mpr ⟨rfl, hName⟩
    have hType : readTypeOf typed = .ok () := readTypeOf_eq_ok_iff.mpr hTyped
    simp only [readConstant, hHead, hWord, hIdentifier, hBase, hType]
    rfl

theorem readDeclaration_eq_ok_iff {s name : List Char} :
    readDeclaration s = .ok name ↔ Declaration name s := by
  simp only [Declaration, constThen_iff]
  constructor
  · intro h
    unfold readDeclaration at h
    split at h
    · cases h
    · rename_i hHead
      rcases hWord : splitWord (Text.dropBlanks s) with ⟨keyword, constant⟩
      simp only [hWord] at h
      split at h
      · cases h
      · rename_i hKeyword
        obtain ⟨hName, typed, hIdentifier, hTyped⟩ := readConstant_eq_ok_iff.mp h
        refine ⟨hName, constant, typed, ⟨by simpa using hHead, ?_⟩, hIdentifier, hTyped⟩
        rw [Decidable.not_not.mp hKeyword]
  · rintro ⟨hName, constant, typed, ⟨hHead, hWord⟩, hIdentifier, hTyped⟩
    have hConstant := readConstant_eq_ok_iff.mpr ⟨hName, typed, hIdentifier, hTyped⟩
    simp [readDeclaration, hHead, hWord, hConstant]

end ClientRegistry.Service
