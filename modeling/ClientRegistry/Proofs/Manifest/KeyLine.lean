import ClientRegistry.Manifest.KeyLine
import ClientRegistry.Proofs.Text.Lines

/-!
# The bytes of a key's line

A key is given a value by a line on which it stands first, with an equals sign after it. What a message
about the value points at is the first such line without the blanks around it: a stretch of whole
characters inside the text, counted in bytes.
-/

set_option autoImplicit false

namespace ClientRegistry

namespace Text

theorem byteCount_eq (s : List Char) : byteCount s = (String.ofList s).utf8ByteSize := by
  induction s with
  | nil => rfl
  | cons c rest ih =>
    rw [byteCount, ih, String.ofList_cons, String.utf8ByteSize_append, String.utf8ByteSize_singleton]

def endBlanks (s : List Char) : List Char := (s.reverse.takeWhile isBlank).reverse

theorem dropEndBlanks_append_endBlanks (s : List Char) : dropEndBlanks s ++ endBlanks s = s := by
  rw [dropEndBlanks, endBlanks, ← List.reverse_append, List.takeWhile_append_dropWhile, List.reverse_reverse]

/-- What ends in a character that is no blank is kept. -/
theorem isPrefix_dropEndBlanks {c : Char} (h : isBlank c = false) (s rest : List Char) :
    s ++ [c] <+: dropEndBlanks (s ++ c :: rest) := by
  have hKept : (c :: s.reverse).dropWhile isBlank = c :: s.reverse := dropBlanks_of_not_blank h _
  have hWhole : (s ++ c :: rest).reverse = rest.reverse ++ (c :: s.reverse) := by simp
  have hPart : (s ++ [c]).reverse = c :: s.reverse := List.reverse_concat
  rw [← List.reverse_suffix, dropEndBlanks, List.reverse_reverse, hWhole, hPart, List.dropWhile_append, hKept]
  split
  · exact List.suffix_rfl
  · exact List.suffix_append _ _

end Text

open Text

namespace Document.Span

/-- The span covers just the bytes of a piece, which are characters of the text. -/
structure Covers (span : Span) (text piece : String) : Prop where
  inside : span.start + span.size ≤ text.utf8ByteSize
  startsAt : (String.Pos.Raw.mk span.start).IsValid text
  endsAt : (String.Pos.Raw.mk (span.start + span.size)).IsValid text
  bytes : text.toUTF8.extract span.start (span.start + span.size) = piece.toUTF8

theorem covers_of_append (before piece after : String) :
    Covers ⟨before.utf8ByteSize, piece.utf8ByteSize⟩ (before ++ piece ++ after) piece where
  inside := by
    rw [String.utf8ByteSize_append, String.utf8ByteSize_append]
    exact Nat.le_add_right _ _
  startsAt := by
    refine String.Pos.Raw.isValid_iff_exists_append.mpr ⟨before, piece ++ after, String.append_assoc, rfl⟩
  endsAt := by
    refine String.Pos.Raw.isValid_iff_exists_append.mpr ⟨before ++ piece, after, rfl, ?_⟩
    rw [String.Pos.Raw.ext_iff, String.byteIdx_rawEndPos, String.utf8ByteSize_append]
  bytes := by
    have hAfter := ByteArray.extract_append_size_add' (b := piece.toByteArray ++ after.toByteArray) (i := 0)
      (j := piece.utf8ByteSize) (String.size_toByteArray (s := before)).symm
    rw [Nat.add_zero] at hAfter
    rw [String.toUTF8_eq_toByteArray, String.toByteArray_append, String.toByteArray_append, ByteArray.append_assoc,
      hAfter, ByteArray.extract_append_eq_left String.size_toByteArray.symm, String.toUTF8_eq_toByteArray]

end Document.Span

namespace Manifest

/-- The line gives a value to the key: after its leading blanks stand the key, blanks and an equals sign. -/
def GivesValue (key line : List Char) : Prop :=
  ∃ gap rest, dropBlanks line = key ++ gap ++ '=' :: rest ∧ ∀ c ∈ gap, isBlank c = true

variable {key line before after : List Char} {lines : List (List Char)} {offset : Nat} {span : Document.Span}

theorem givesKey_dropBlanks_iff : givesKey key (dropBlanks line) = true ↔ GivesValue key line := by
  rw [givesKey, Bool.and_eq_true, List.isPrefixOf_iff_prefix, beq_iff_eq]
  constructor
  · rintro ⟨⟨after, hAfter⟩, hSign⟩
    rw [← hAfter, List.drop_left] at hSign
    obtain ⟨rest, hRest⟩ := List.head?_eq_some_iff.mp hSign
    refine ⟨after.takeWhile isBlank, rest, ?_, fun c hc => List.all_eq_true.mp List.all_takeWhile c hc⟩
    rw [← hAfter, List.append_assoc, ← hRest, takeWhile_append_dropBlanks]
  · rintro ⟨gap, rest, hLine, hGap⟩
    have hRest : dropBlanks (gap ++ '=' :: rest) = '=' :: rest := by
      rw [dropBlanks, List.dropWhile_append_of_pos hGap]
      rfl
    rw [hLine, List.append_assoc, List.drop_left, hRest]
    exact ⟨List.prefix_append _ _, rfl⟩

theorem keyLineFrom_eq_none_iff : keyLineFrom key offset lines = none ↔ ∀ line ∈ lines, ¬GivesValue key line := by
  induction lines generalizing offset with
  | nil => simp [keyLineFrom]
  | cons line rest ih =>
    rw [keyLineFrom, List.forall_mem_cons, ← givesKey_dropBlanks_iff]
    split
    · rename_i hGives
      simp [hGives]
    · rename_i hGives
      rw [ih]
      exact (and_iff_right hGives).symm

/-- What is found is the first line that gives the key a value, by the bytes before it. -/
theorem exists_first_of_keyLineFrom (h : keyLineFrom key offset lines = some span) :
    ∃ earlier line later, lines = earlier ++ line :: later ∧ (∀ l ∈ earlier, ¬GivesValue key l) ∧
      GivesValue key line ∧
      span = ⟨offset + byteCount (closed earlier ++ line.takeWhile isBlank),
        byteCount (dropEndBlanks (dropBlanks line))⟩ := by
  induction lines generalizing offset with
  | nil => cases h
  | cons line rest ih =>
    rw [keyLineFrom] at h
    split at h
    · rename_i hGives
      refine ⟨[], line, rest, rfl, nofun, givesKey_dropBlanks_iff.mp hGives, ?_⟩
      have hBlanks : byteCount line = byteCount (line.takeWhile isBlank) + byteCount (dropBlanks line) := by
        rw [← byteCount_append, takeWhile_append_dropBlanks]
      rw [← Option.some.inj h, hBlanks, Nat.add_sub_cancel_right]
      rfl
    · rename_i hGives
      obtain ⟨earlier, found, later, rfl, hEarlier, hFound, rfl⟩ := ih h
      refine ⟨line :: earlier, found, later, rfl, ?_, hFound, ?_⟩
      · exact List.forall_mem_cons.mpr ⟨fun hLine => hGives (givesKey_dropBlanks_iff.mpr hLine), hEarlier⟩
      · have hMore : byteCount (closed (line :: earlier) ++ found.takeWhile isBlank) =
            byteCount line + (1 + byteCount (closed earlier ++ found.takeWhile isBlank)) := by
          rw [closed_cons, List.append_assoc, byteCount_append]
          rfl
        rw [hMore, ← Nat.add_assoc, ← Nat.add_assoc]

structure FirstGiving (text key : String) (before line after : List Char) : Prop where
  lineAt : LineAt text.toList before line after
  gives : GivesValue key.toList line
  first : ∀ before' line' after', LineAt text.toList before' line' after' → GivesValue key.toList line' →
    before.length ≤ before'.length

/-- The lines before the first one that gives a value are those that splitting puts before it. -/
theorem firstGiving_of_splitOn {text key : String} {earlier later : List (List Char)}
    (h : text.toList.splitOn '\n' = earlier ++ line :: later) (hGives : GivesValue key.toList line)
    (hEarlier : ∀ l ∈ earlier, ¬GivesValue key.toList l) :
    FirstGiving text key (closed earlier) line (later.flatMap (['\n'] ++ ·)) where
  lineAt := lineAt_of_splitOn h
  gives := hGives
  first := by
    intro before' line' after' hLine' hGives'
    obtain ⟨earlier', later', hSplit, rfl⟩ := hLine'.exists_splitOn
    have hSame : earlier ++ line :: later = earlier' ++ line' :: later' := h.symm.trans hSplit
    rcases List.append_eq_append_iff.mp hSame with ⟨between, rfl, -⟩ | ⟨between, rfl, hRest⟩
    · rw [closed_append, List.length_append]
      exact Nat.le_add_right _ _
    · cases between with
      | nil => exact Nat.le_of_eq (by rw [List.append_nil])
      | cons l more =>
        obtain ⟨rfl, -⟩ := List.cons.inj hRest
        exact absurd hGives' (hEarlier _ (List.mem_append_right _ List.mem_cons_self))

theorem exists_trim_eq_of_givesValue {key : String} (h : GivesValue key.toList line) :
    ∃ rest, trim (String.ofList line) = key ++ rest := by
  obtain ⟨gap, rest, hLine, -⟩ := h
  obtain ⟨more, hMore⟩ := isPrefix_dropEndBlanks (c := '=') rfl (key.toList ++ gap) rest
  refine ⟨String.ofList (gap ++ ['='] ++ more), ?_⟩
  rw [trim, String.toList_ofList, hLine, ← hMore, List.append_assoc, List.append_assoc, String.ofList_append,
    String.ofList_toList, List.append_assoc]

theorem covers_line {text : String} (h : LineAt text.toList before line after) :
    Document.Span.Covers ⟨byteCount (before ++ line.takeWhile isBlank), byteCount (dropEndBlanks (dropBlanks line))⟩
      text (trim (String.ofList line)) := by
  have hText : text.toList =
      (before ++ line.takeWhile isBlank) ++ dropEndBlanks (dropBlanks line) ++ (endBlanks (dropBlanks line) ++ after) :=
    calc
      text.toList = before ++ line ++ after := h.text
      _ = before ++ (line.takeWhile isBlank ++ (dropEndBlanks (dropBlanks line) ++ endBlanks (dropBlanks line))) ++
          after := by rw [dropEndBlanks_append_endBlanks, takeWhile_append_dropBlanks]
      _ = _ := by simp only [List.append_assoc]
  have hCovers := Document.Span.covers_of_append (String.ofList (before ++ line.takeWhile isBlank))
    (String.ofList (dropEndBlanks (dropBlanks line))) (String.ofList (endBlanks (dropBlanks line) ++ after))
  rw [← String.ofList_append, ← String.ofList_append, ← hText, String.ofList_toList] at hCovers
  rwa [byteCount_eq, byteCount_eq, trim, String.toList_ofList]

/-- A key's line is found just where some line gives the key a value, and what is pointed at are the
bytes of the first such line without the blanks around it, which begin with the key. -/
theorem keyLine?_exact (text key : String) :
    ((keyLine? text key).isSome = true ↔
      ∃ before line after, LineAt text.toList before line after ∧ GivesValue key.toList line) ∧
    ∀ span, keyLine? text key = some span → ∃ before line after, FirstGiving text key before line after ∧
      span.Covers text (trim (String.ofList line)) ∧ ∃ rest, trim (String.ofList line) = key ++ rest := by
  have hFirst : ∀ span, keyLine? text key = some span → ∃ before line after,
      FirstGiving text key before line after ∧ span.Covers text (trim (String.ofList line)) := by
    intro span hSpan
    obtain ⟨earlier, line, later, hSplit, hEarlier, hGives, rfl⟩ := exists_first_of_keyLineFrom hSpan
    have hLine := firstGiving_of_splitOn hSplit hGives hEarlier
    refine ⟨_, line, _, hLine, ?_⟩
    rw [Nat.zero_add]
    exact covers_line hLine.lineAt
  refine ⟨⟨fun hSome => ?_, ?_⟩, fun span hSpan => ?_⟩
  · obtain ⟨span, hSpan⟩ := Option.isSome_iff_exists.mp hSome
    obtain ⟨before, line, after, hLine, -⟩ := hFirst span hSpan
    exact ⟨before, line, after, hLine.lineAt, hLine.gives⟩
  · rintro ⟨before, line, after, hLine, hGives⟩
    obtain ⟨earlier, later, hSplit, -⟩ := hLine.exists_splitOn
    rw [← Option.ne_none_iff_isSome]
    intro hNone
    exact keyLineFrom_eq_none_iff.mp hNone line (hSplit ▸ List.mem_append_right _ List.mem_cons_self) hGives
  · obtain ⟨before, line, after, hLine, hCovers⟩ := hFirst span hSpan
    exact ⟨before, line, after, hLine, hCovers, exists_trim_eq_of_givesValue hLine.gives⟩

/-- A wide blank before the key and wide letters before its line count with their bytes. -/
example : keyLine? "# é\r\n\u3000out_dir\t=  \"\" \r\nout_dir = 1\n" "out_dir" = some ⟨9, 13⟩ := by decide

end Manifest

end ClientRegistry
