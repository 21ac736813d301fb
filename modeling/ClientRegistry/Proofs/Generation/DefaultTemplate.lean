import ClientRegistry.Generation.Template
import ClientRegistry.Proofs.Manifest.CleanSafety
import ClientRegistry.Proofs.Text.Lines

/-!
# Where a default template sends the output

The directory stands in the template as it is, as a plain scalar on the last of its lines. A reader takes
it back from there just where it has no break, no blank at either end, nothing that opens a comment, and
nothing that makes it an entry.
-/

set_option autoImplicit false

namespace ClientRegistry

theorem Text.toList_ofLines (lines : List String) : (ofLines lines).toList = closed (lines.map String.toList) := by
  rw [ofLines, String.toList_join, closed, List.flatMap_map, List.flatMap_map]
  simp only [String.toList_append]
  rfl

namespace Template

open Text (closed closed_nil closed_cons)

/-! ### Reading a template -/

def isBreak (c : Char) : Bool := c == '\n' || c == '\r'

def isSpace (c : Char) : Bool := c == ' ' || c == '\t'

def addToFirst (c : Char) : List (List Char) → List (List Char)
  | [] => [[c]]
  | line :: more => (c :: line) :: more

def lines : List Char → List (List Char)
  | [] => []
  | c :: rest =>
    if c = '\n' then [] :: lines rest
    else if c = '\r' then (if rest.head? = some '\n' then lines rest else [] :: lines rest)
    else addToFirst c (lines rest)

def afterKey? (key line : List Char) : Option (List Char) :=
  let entry := line.dropWhile isSpace
  if (key ++ [':']).isPrefixOf entry then some (entry.drop (key.length + 1)) else none

/-- A text up to a comment, which opens with a blank and a number sign. -/
def uncommented : List Char → List Char
  | c :: d :: rest => if isSpace c && d == '#' then [] else c :: uncommented (d :: rest)
  | s => s

def dropEndSpaces (s : List Char) : List Char := (s.reverse.dropWhile isSpace).reverse

def hasPair (p q : Char → Bool) : List Char → Bool
  | c :: d :: rest => p c && q d || hasPair p q (d :: rest)
  | _ => false

/-- The value of a plain scalar; a colon with a blank after it would make an entry of it. -/
def plain? (s : List Char) : Option (List Char) :=
  let value := dropEndSpaces ((uncommented s).dropWhile isSpace)
  if hasPair (· == ':') isSpace value then none else some value

def output? (template : String) : Option String :=
  (((lines template.toList).findSome? (afterKey? "out".toList)).bind plain?).map String.ofList

structure IsPlain (s : List Char) : Prop where
  unbroken : ∀ c ∈ s, isBreak c = false
  /-- No blank or number sign comes first. -/
  opens : ∀ c ∈ s.head?, isSpace c = false ∧ c ≠ '#'
  closes : ∀ c ∈ s.getLast?, isSpace c = false
  uncommented : ∀ c, isSpace c = true → ¬[c, '#'] <:+: s
  noEntry : ∀ c, isSpace c = true → ¬[':', c] <:+: s

/-- A template of six lines sends the output to a directory. -/
structure SendsTo (template : String) (outDir : Path) : Prop where
  lines : (lines template.toList).length = 6
  output : output? template = some outDir.text

/-! ### Lines -/

theorem isBreak_of_mem_lines {s line : List Char} {c : Char} (h : line ∈ lines s) (hc : c ∈ line) :
    isBreak c = false := by
  induction s generalizing line with
  | nil => cases h
  | cons d rest ih =>
    have hEmpty : line ∈ [] :: lines rest → isBreak c = false := by
      intro hLine
      rcases List.mem_cons.mp hLine with rfl | hRest
      · cases hc
      · exact ih hRest hc
    unfold lines at h
    split at h
    · exact hEmpty h
    · rename_i hFeed
      split at h
      · split at h
        · exact ih h hc
        · exact hEmpty h
      · rename_i hReturn
        have hBreak : isBreak d = false := by simp [isBreak, hFeed, hReturn]
        cases hRest : lines rest with
        | nil =>
          rw [hRest, addToFirst, List.mem_singleton] at h
          subst h
          rwa [List.mem_singleton.mp hc]
        | cons first more =>
          rw [hRest, addToFirst] at h
          rw [hRest] at ih
          rcases List.mem_cons.mp h with rfl | hMore
          · rcases List.mem_cons.mp hc with rfl | hFirst
            · exact hBreak
            · exact ih List.mem_cons_self hFirst
          · exact ih (List.mem_cons_of_mem _ hMore) hc

theorem lines_append {line : List Char} (h : ∀ c ∈ line, isBreak c = false) (rest : List Char) :
    lines (line ++ '\n' :: rest) = line :: lines rest := by
  induction line with
  | nil => rfl
  | cons c more ih =>
    have hc : c ≠ '\n' ∧ c ≠ '\r' := by simpa [isBreak] using h c List.mem_cons_self
    rw [List.cons_append, lines, if_neg hc.1, if_neg hc.2, ih fun d hd => h d (List.mem_cons_of_mem _ hd)]
    rfl

theorem lines_closed {ls : List (List Char)} (h : ∀ line ∈ ls, ∀ c ∈ line, isBreak c = false) (rest : List Char) :
    lines (closed ls ++ rest) = ls ++ lines rest := by
  induction ls with
  | nil => rfl
  | cons line more ih =>
    rw [closed_cons, List.append_assoc, List.cons_append, lines_append (h line List.mem_cons_self),
      ih fun l hl => h l (List.mem_cons_of_mem _ hl)]
    rfl

/-! ### Plain scalars -/

theorem hasPair_eq_false_iff {p q : Char → Bool} {s : List Char} :
    hasPair p q s = false ↔ ∀ c d, p c = true → q d = true → ¬[c, d] <:+: s := by
  fun_induction hasPair p q s with
  | case1 c d rest ih =>
    rw [Bool.or_eq_false_iff, ih]
    constructor
    · rintro ⟨hHere, hLater⟩ c' d' hc hd hPair
      rcases List.infix_cons_iff.mp hPair with hFirst | hRest
      · obtain ⟨rfl, hSecond⟩ := List.cons_prefix_cons.mp hFirst
        obtain ⟨rfl, -⟩ := List.cons_prefix_cons.mp hSecond
        simp [hc, hd] at hHere
      · exact hLater c' d' hc hd hRest
    · intro h
      refine ⟨?_, fun c' d' hc hd hPair => h c' d' hc hd (List.infix_cons hPair)⟩
      rw [← Bool.not_eq_true, Bool.and_eq_true]
      exact fun hBoth => h c d hBoth.1 hBoth.2 ⟨[], rest, rfl⟩
  | case2 s hShort =>
    refine iff_of_true rfl fun c d _ _ hPair => ?_
    match s, hShort, hPair.length_le with
    | c :: d :: rest, hShort, _ => exact hShort c d rest rfl

theorem uncommented_cases (s : List Char) :
    uncommented s = s ∧ hasPair isSpace (· == '#') s = false ∨ (uncommented s).length + 2 ≤ s.length := by
  fun_induction uncommented s with
  | case1 c d rest h => exact .inr (by simp)
  | case2 c d rest h ih =>
    rcases ih with ⟨hSame, hPair⟩ | hShort
    · exact .inl ⟨by rw [hSame], by rw [hasPair, hPair, Bool.or_false, Bool.eq_false_iff.mpr h]⟩
    · exact .inr (by simpa using hShort)
  | case3 s hShort =>
    refine .inl ⟨rfl, ?_⟩
    unfold hasPair
    split
    · exact absurd rfl (hShort _ _ _)
    · rfl

theorem uncommented_isPrefix (s : List Char) : uncommented s <+: s := by
  fun_induction uncommented s with
  | case1 c d rest h => exact List.nil_prefix
  | case2 c d rest h ih => exact List.cons_prefix_cons.mpr ⟨rfl, ih⟩
  | case3 s hShort => exact List.prefix_rfl

/-- A value has no other characters than what it is read from. -/
theorem mem_of_plain? {s value : List Char} {c : Char} (h : plain? s = some value) (hc : c ∈ value) : c ∈ s := by
  unfold plain? at h
  obtain ⟨-, hValue⟩ := Option.ite_none_left_eq_some.mp h
  rw [← Option.some.inj hValue, dropEndSpaces, List.mem_reverse] at hc
  have hTrimmed := (List.dropWhile_suffix isSpace).subset (List.mem_reverse.mp ((List.dropWhile_suffix _).subset hc))
  exact (uncommented_isPrefix s).subset hTrimmed

theorem mem_of_afterKey? {key line rest : List Char} {c : Char} (h : afterKey? key line = some rest) (hc : c ∈ rest) :
    c ∈ line := by
  unfold afterKey? at h
  obtain ⟨-, hRest⟩ := Option.ite_none_right_eq_some.mp h
  rw [← Option.some.inj hRest] at hc
  exact (List.dropWhile_suffix isSpace).subset (List.mem_of_mem_drop hc)

theorem uncommented_of_hasPair {s : List Char} (h : hasPair isSpace (· == '#') s = false) : uncommented s = s := by
  fun_induction uncommented s with
  | case1 c d rest hHere => simp [hasPair, hHere] at h
  | case2 c d rest hHere ih =>
    rw [hasPair, Bool.or_eq_false_iff] at h
    rw [ih h.2]
  | case3 s hShort => rfl

theorem dropWhile_eq_self_iff {s : List Char} :
    s.dropWhile isSpace = s ↔ ∀ c ∈ s.head?, isSpace c = false := by
  cases s with
  | nil => simp
  | cons c rest =>
    cases hc : isSpace c with
    | false => simp [hc]
    | true =>
      refine iff_of_false (fun hSame => ?_) (by simp [hc])
      rw [List.dropWhile_cons, if_pos hc] at hSame
      have hLength := congrArg List.length hSame
      have hShorter := (List.dropWhile_suffix isSpace (l := rest)).length_le
      rw [List.length_cons] at hLength
      omega

theorem dropEndSpaces_eq_self_iff {s : List Char} :
    dropEndSpaces s = s ↔ ∀ c ∈ s.getLast?, isSpace c = false := by
  rw [dropEndSpaces, List.reverse_eq_iff, dropWhile_eq_self_iff, List.head?_reverse]

theorem length_dropEndSpaces_le (s : List Char) : (dropEndSpaces s).length ≤ s.length := by
  have hLe := (List.dropWhile_suffix isSpace (l := s.reverse)).length_le
  rwa [List.length_reverse, ← List.length_reverse] at hLe

/-- What is left without the blanks around it is all of a text that has none. -/
theorem dropEndSpaces_dropWhile_eq_self_iff {s : List Char} :
    dropEndSpaces (s.dropWhile isSpace) = s ↔
      (∀ c ∈ s.head?, isSpace c = false) ∧ ∀ c ∈ s.getLast?, isSpace c = false := by
  rw [← dropWhile_eq_self_iff, ← dropEndSpaces_eq_self_iff]
  constructor
  · intro h
    have hLength := length_dropEndSpaces_le (s.dropWhile isSpace)
    rw [h] at hLength
    have hSame := (List.dropWhile_suffix isSpace).eq_of_length_le hLength
    exact ⟨hSame, by rwa [hSame] at h⟩
  · rintro ⟨hFirst, hLast⟩
    rw [hFirst, hLast]

theorem hasPair_space_cons_iff {s : List Char} :
    hasPair isSpace (· == '#') (' ' :: s) = false ↔
      (∀ c ∈ s.head?, c ≠ '#') ∧ ∀ c, isSpace c = true → ¬[c, '#'] <:+: s := by
  have hLater : hasPair isSpace (· == '#') s = false ↔ ∀ c, isSpace c = true → ¬[c, '#'] <:+: s := by
    rw [hasPair_eq_false_iff]
    simp only [beq_iff_eq]
    exact ⟨fun h c hc => h c '#' hc rfl, fun h c d hc hd => hd ▸ h c hc⟩
  rw [← hLater]
  cases s with
  | nil => simp [hasPair]
  | cons d rest =>
    have hSpace : isSpace ' ' = true := rfl
    rw [hasPair, Bool.or_eq_false_iff, hSpace, Bool.true_and, beq_eq_false_iff_ne]
    simp

/-- What stands after a colon and a blank is read back just where it is a plain text. -/
theorem plain?_space_iff {s : List Char} (h : ∀ c ∈ s, isBreak c = false) :
    plain? (' ' :: s) = some s ↔ IsPlain s := by
  have hSpace : (' ' :: s).dropWhile isSpace = s.dropWhile isSpace := rfl
  have hEntry : hasPair (· == ':') isSpace s = false ↔ ∀ c, isSpace c = true → ¬[':', c] <:+: s := by
    rw [hasPair_eq_false_iff]
    simp only [beq_iff_eq]
    exact ⟨fun h c hc => h ':' c rfl hc, fun h d c hd hc => hd ▸ h c hc⟩
  constructor
  · intro hPlain
    unfold plain? at hPlain
    obtain ⟨hPair, hValue⟩ := Option.ite_none_left_eq_some.mp hPlain
    have hValue := Option.some.inj hValue
    rw [hValue, Bool.not_eq_true] at hPair
    have hLength := length_dropEndSpaces_le ((uncommented (' ' :: s)).dropWhile isSpace)
    have hShorter := (List.dropWhile_suffix isSpace (l := uncommented (' ' :: s))).length_le
    rw [hValue] at hLength
    rcases uncommented_cases (' ' :: s) with ⟨hSame, hComment⟩ | hCut
    · rw [hSame, hSpace, dropEndSpaces_dropWhile_eq_self_iff] at hValue
      obtain ⟨hNumber, hComment⟩ := hasPair_space_cons_iff.mp hComment
      exact ⟨h, fun c hc => ⟨hValue.1 c hc, hNumber c hc⟩, hValue.2, hComment, hEntry.mp hPair⟩
    · rw [List.length_cons] at hCut
      omega
  · intro hPlain
    have hComment := hasPair_space_cons_iff.mpr ⟨fun c hc => (hPlain.opens c hc).2, hPlain.uncommented⟩
    have hValue := dropEndSpaces_dropWhile_eq_self_iff.mpr ⟨fun c hc => (hPlain.opens c hc).1, hPlain.closes⟩
    unfold plain?
    rw [uncommented_of_hasPair hComment, hSpace, hValue]
    exact if_neg (by rw [hEntry.mpr hPlain.noEntry]; exact Bool.false_ne_true)

/-! ### The template -/

def openingLines : List (List Char) :=
  ["version: v2", "plugins:", "  - local: protoc-gen-es", "    include_imports: true", "    opt: target=ts"].map
    String.toList

theorem toList_defaultText (outDir : Path) :
    (defaultText outDir).toList = closed (openingLines ++ ["    out: ".toList ++ outDir.text.toList]) := by
  unfold defaultText
  rw [Text.toList_ofLines, ← String.toList_append]
  rfl

theorem lines_defaultText {outDir : Path} (h : ∀ c ∈ outDir.text.toList, isBreak c = false) :
    lines (defaultText outDir).toList = openingLines ++ ["    out: ".toList ++ outDir.text.toList] := by
  have hLines : ∀ line ∈ openingLines ++ ["    out: ".toList ++ outDir.text.toList], ∀ c ∈ line, isBreak c = false := by
    intro line hLine c hc
    rcases List.mem_append.mp hLine with hOpening | hLast
    · have hAll : openingLines.all (List.all · fun c => !isBreak c) = true := by decide
      simpa using List.all_eq_true.mp (List.all_eq_true.mp hAll line hOpening) c hc
    · rw [List.mem_singleton.mp hLast] at hc
      rcases List.mem_append.mp hc with hKey | hText
      · have hAll : ("    out: ".toList.all fun c => !isBreak c) = true := by decide
        simpa using List.all_eq_true.mp hAll c hKey
      · exact h c hText
  have hEnd := lines_closed hLines []
  rwa [List.append_nil, lines, List.append_nil, ← toList_defaultText] at hEnd

theorem output?_defaultText {outDir : Path} (h : ∀ c ∈ outDir.text.toList, isBreak c = false) :
    output? (defaultText outDir) = (plain? (' ' :: outDir.text.toList)).map String.ofList := by
  have hOpening : openingLines.findSome? (afterKey? "out".toList) = none := by decide
  have hLast : afterKey? "out".toList ("    out: ".toList ++ outDir.text.toList) =
      some (' ' :: outDir.text.toList) := rfl
  rw [output?, lines_defaultText h, List.findSome?_append, hOpening, Option.none_or, List.findSome?_cons, hLast]
  rfl

/-- A value has no character that ends a line. -/
theorem isBreak_of_output? {template : String} {outDir : Path} (h : output? template = some outDir.text) :
    ∀ c ∈ outDir.text.toList, isBreak c = false := by
  intro c hc
  obtain ⟨value, hValue, hText⟩ := Option.map_eq_some_iff.mp h
  obtain ⟨rest, hRest, hPlain⟩ := Option.bind_eq_some_iff.mp hValue
  obtain ⟨line, hLine, hAfter⟩ := List.exists_of_findSome?_eq_some hRest
  rw [← hText, String.toList_ofList] at hc
  exact isBreak_of_mem_lines hLine (mem_of_afterKey? hAfter (mem_of_plain? hPlain hc))

/-- The template made for a directory sends the output to it just where the directory is a plain text. -/
theorem sendsTo_defaultText_iff (outDir : Path) :
    SendsTo (defaultText outDir) outDir ↔ IsPlain outDir.text.toList := by
  have hRead (h : ∀ c ∈ outDir.text.toList, isBreak c = false) :
      output? (defaultText outDir) = some outDir.text ↔ IsPlain outDir.text.toList := by
    rw [output?_defaultText h, ← plain?_space_iff h, Option.map_eq_some_iff]
    constructor
    · rintro ⟨value, hValue, hText⟩
      rw [hValue, ← hText, String.toList_ofList]
    · exact fun hValue => ⟨_, hValue, String.ofList_toList⟩
  constructor
  · exact fun hSends => (hRead (isBreak_of_output? hSends.output)).mp hSends.output
  · intro hPlain
    refine ⟨?_, (hRead hPlain.unbroken).mpr hPlain⟩
    rw [lines_defaultText hPlain.unbroken]
    rfl

open GenerationConfig in
/-- Accepted directories to which the output is not sent: one is cut at a comment, one is no plain scalar at
all, and one is cut at the end of its first line. -/
theorem not_sendsTo_defaultText :
    ((defaultInto ⟨"gen # new"⟩).validate = .ok () ∧ ¬SendsTo (defaultText ⟨"gen # new"⟩) ⟨"gen # new"⟩ ∧
      output? (defaultText ⟨"gen # new"⟩) = some "gen") ∧
    ((defaultInto ⟨"gen: new"⟩).validate = .ok () ∧ ¬SendsTo (defaultText ⟨"gen: new"⟩) ⟨"gen: new"⟩ ∧
      output? (defaultText ⟨"gen: new"⟩) = none) ∧
    ((defaultInto ⟨"gen\nnew"⟩).validate = .ok () ∧ ¬SendsTo (defaultText ⟨"gen\nnew"⟩) ⟨"gen\nnew"⟩ ∧
      output? (defaultText ⟨"gen\nnew"⟩) = some "gen") := by
  have hComment : output? (defaultText ⟨"gen # new"⟩) = some "gen" := by decide +kernel
  have hEntry : output? (defaultText ⟨"gen: new"⟩) = none := by decide +kernel
  have hBreak : output? (defaultText ⟨"gen\nnew"⟩) = some "gen" := by decide +kernel
  refine ⟨⟨rfl, fun h => absurd (hComment.symm.trans h.output) ?_, hComment⟩,
    ⟨rfl, fun h => absurd (hEntry.symm.trans h.output) ?_, hEntry⟩,
    rfl, fun h => absurd (hBreak.symm.trans h.output) ?_, hBreak⟩
  all_goals decide

end Template

end ClientRegistry
