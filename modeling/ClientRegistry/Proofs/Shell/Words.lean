import ClientRegistry.Shell.Expansion

/-!
# Words without expansions

A word whose parts are all text expands to its text without the quotes, in every session: it is neither split nor
taken for a pattern, and nothing is run for it.
-/

set_option autoImplicit false

namespace ClientRegistry.Shell

variable {raw v : List Char} {steps : Nat}

/-! ### Reading the value -/

def valueWithin (steps : Nat) (s : List Char) : Option (List Char) :=
  ((partsWithin steps s).mapM Part.plain?).map List.flatten

theorem value?_of_valueWithin (hStart : raw.head? ≠ some '~') (h : valueWithin raw.length raw = some v) :
    value? raw = some v := by
  rw [value?, if_neg hStart]
  exact h

theorem valueWithin_nil (steps : Nat) : valueWithin steps [] = some [] := by
  cases steps <;> rfl

theorem valueWithin_of_parts {p : Part} {text s rest : List Char}
    (hParts : partsWithin (steps + 1) s = p :: partsWithin steps rest) (hPart : p.plain? = some text) :
    valueWithin (steps + 1) s = (valueWithin steps rest).map (text ++ ·) := by
  rw [valueWithin, valueWithin, hParts, List.mapM_cons, hPart]
  cases (partsWithin steps rest).mapM Part.plain? <;> rfl

theorem valueWithin_escaped (steps : Nat) (c : Char) (rest : List Char) :
    valueWithin (steps + 1) ('\\' :: c :: rest) = (valueWithin steps rest).map (c :: ·) :=
  valueWithin_of_parts (p := .text [c] true) rfl rfl

theorem valueWithin_single (steps : Nat) (s : List Char) :
    valueWithin (steps + 1) ('\'' :: s) =
      (valueWithin steps (splitOpened .single s).2).map ((splitOpened .single s).1 ++ ·) :=
  valueWithin_of_parts (p := .text _ true) rfl rfl

theorem quotedParts_ne_nil {s : List Char} (h : s ≠ []) : quotedParts s.length s ≠ [] := by
  obtain ⟨c, rest, rfl⟩ := List.exists_cons_of_ne_nil h
  rw [List.length_cons]
  unfold quotedParts
  split
  case h_1 hText => cases hText
  case h_2 => split <;> exact List.cons_ne_nil _ _
  all_goals exact List.cons_ne_nil _ _

theorem parts_ne_nil (h : raw ≠ []) : parts raw ≠ [] := by
  obtain ⟨c, rest, rfl⟩ := List.exists_cons_of_ne_nil h
  rw [parts, List.length_cons]
  unfold partsWithin
  split
  case h_1 hText => cases hText
  case h_4 =>
    dsimp only
    split
    · exact List.cons_ne_nil _ _
    · exact List.append_ne_nil_of_left_ne_nil (quotedParts_ne_nil ‹_›) _
  all_goals exact List.cons_ne_nil _ _

/-! ### Expanding it -/

abbrev MarkedText := List Char × Bool

def Inert (word : List Marked) : Prop := ∀ m ∈ word, m.2 = false → isPatternChar m.1 = false

def marks (ts : List MarkedText) : List Marked := ts.flatMap fun t => t.1.map fun c => (c, t.2)

theorem marks_cons (t : MarkedText) (ts : List MarkedText) :
    marks (t :: ts) = t.1.map (fun c => (c, t.2)) ++ marks ts := rfl

theorem map_fst_marks (ts : List MarkedText) : (marks ts).map Prod.fst = (ts.map Prod.fst).flatten := by
  induction ts with
  | nil => rfl
  | cons t rest ih => simp [marks_cons, ih, Function.comp_def]

theorem exists_quoted_of_plain? {p : Part} {text : List Char} (h : p.plain? = some text) :
    ∃ quoted, p = .text text quoted ∧ Inert (text.map fun c => (c, quoted)) := by
  cases p with
  | text s quoted =>
    simp only [Part.plain?, Option.ite_none_left_eq_some, Option.some.injEq] at h
    obtain ⟨hPlain, rfl⟩ := h
    refine ⟨quoted, rfl, ?_⟩
    intro m hm hUnquoted
    obtain ⟨c, hc, rfl⟩ := List.mem_map.mp hm
    obtain rfl : quoted = false := hUnquoted
    refine Bool.eq_false_iff.mpr fun hPattern => hPlain ?_
    simpa using ⟨c, hc, hPattern⟩
  | parameter | command | arithmetic => cases h

theorem exists_texts_of_mapM {ps : List Part} {texts : List (List Char)} (h : ps.mapM Part.plain? = some texts) :
    ∃ ts : List MarkedText, ps = ts.map (fun t => .text t.1 t.2) ∧ ts.map Prod.fst = texts ∧ Inert (marks ts) := by
  induction ps generalizing texts with
  | nil =>
    obtain rfl : [] = texts := by simpa using h
    exact ⟨[], rfl, rfl, fun _ hm => absurd hm List.not_mem_nil⟩
  | cons p ps ih =>
    simp only [List.mapM_cons, Option.bind_eq_bind, Option.bind_eq_some_iff, Option.pure_def,
      Option.some.injEq] at h
    obtain ⟨text, hText, others, hOthers, rfl⟩ := h
    obtain ⟨quoted, rfl, hFirst⟩ := exists_quoted_of_plain? hText
    obtain ⟨ts, rfl, rfl, hRest⟩ := ih hOthers
    exact ⟨(text, quoted) :: ts, rfl, rfl, List.forall_mem_append.mpr ⟨hFirst, hRest⟩⟩

theorem all_isLiteral_readWithin (n : Nat) {word : List Marked} (h : Inert word) :
    (Glob.readWithin n word).all Glob.isLiteral = true := by
  induction n generalizing word with
  | zero => rfl
  | succ n ih =>
    cases word with
    | nil => rfl
    | cons m rest =>
      obtain ⟨hFirst, hRest⟩ := List.forall_mem_cons.mp h
      unfold Glob.readWithin
      split
      case h_1 => rfl
      case h_2 | h_3 | h_4 =>
        rename_i hWord
        cases hWord
        exact absurd (hFirst rfl) (by decide)
      case h_5 hWord =>
        cases hWord
        exact ih hRest

theorem matchPaths_of_inert (t : FileTree) (dir : Location) {word : List Marked} (h : Inert word) :
    matchPaths t dir word = [String.ofList (word.map Prod.fst)] :=
  if_pos (all_isLiteral_readWithin _ h)

theorem foldl_addPiece_texts (ts : List MarkedText) (word : List Marked) :
    (ts.map fun t => Piece.text t.1 t.2).foldl Fields.addPiece ⟨[], some word⟩ = ⟨[], some (word ++ marks ts)⟩ := by
  induction ts generalizing word with
  | nil => simp [marks]
  | cons t rest ih =>
    rw [List.map_cons, List.foldl_cons, Fields.addPiece, Fields.add, Option.getD_some, ih]
    simp [marks]

theorem fieldsOf_texts {ts : List MarkedText} (h : ts ≠ []) :
    fieldsOf (ts.map fun t => Piece.text t.1 t.2) = [marks ts] := by
  obtain ⟨t, rest, rfl⟩ := List.exists_cons_of_ne_nil h
  rw [fieldsOf, List.map_cons, List.foldl_cons, Fields.addPiece, Fields.add, Option.getD_none, foldl_addPiece_texts]
  rfl

section

variable (substitute : List Char → Run ByteArray)

theorem expand_texts {ts : List MarkedText} (hStart : raw.head? ≠ some '~')
    (hParts : parts raw = ts.map fun t => .text t.1 t.2) (s : Session) :
    (expand substitute raw).run.run s = (.ok (ts.map fun t => .text t.1 t.2), s) := by
  have hMap (inner : List Char → Run (List Piece)) :
      (parts raw).mapM (expandPart substitute inner) = pure (ts.map fun t => [.text t.1 t.2]) := by
    rw [hParts, List.mapM_map]
    exact List.mapM_pure
  have hFlat : (ts.map fun t => [Piece.text t.1 t.2]).flatten = ts.map fun t => .text t.1 t.2 := by
    rw [← List.flatMap_def, List.map_eq_flatMap]
  rw [expand, expandWithin]
  split
  · exact absurd rfl hStart
  · exact absurd rfl hStart
  · simp only [hMap, map_pure, hFlat, List.nil_append, bind_pure_comp]
    rfl

theorem expandWords_of_value? (h : value? raw = some v) (hRaw : raw ≠ []) (s : Session) :
    (expandWords substitute [raw]).run.run s = (.ok [String.ofList v], s) := by
  simp only [value?, Option.ite_none_left_eq_some, Option.map_eq_some_iff] at h
  obtain ⟨hStart, texts, hTexts, rfl⟩ := h
  obtain ⟨ts, hParts, rfl, hInert⟩ := exists_texts_of_mapM hTexts
  have hExpand := expand_texts substitute hStart hParts s
  have hSome : ts ≠ [] := fun hNone => parts_ne_nil hRaw (by rw [hParts, hNone, List.map_nil])
  have hFields (t : FileTree) (dir : Location) :
      (fieldsOf (ts.map fun t => .text t.1 t.2)).flatMap (matchPaths t dir) =
        [String.ofList (ts.map Prod.fst).flatten] := by
    rw [fieldsOf_texts hSome, List.flatMap_singleton, matchPaths_of_inert t dir hInert, map_fst_marks]
  simp only [expandWords, List.forIn_cons, List.forIn_nil, ExceptT.run_bind, StateT.run_bind, hExpand]
  exact congrArg (fun words => (Except.ok words, s)) (hFields s.tree s.dir)

end

end ClientRegistry.Shell
