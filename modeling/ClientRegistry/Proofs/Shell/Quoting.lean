import ClientRegistry.Proofs.Shell.Reading
import ClientRegistry.Proofs.Shell.Words
import ClientRegistry.Shell.Quote

/-!
# What a shell reads of a quoted argument

Quoted text is read back as it was. An argument of plain characters is written without quotes, and a backslash counts
as plain: there the shell takes the backslash away, and at the end of the argument it joins the next word to it.
-/

set_option autoImplicit false

namespace ClientRegistry.Shell

variable {text : List Char} {c : Char} {steps : Nat}

/-! ### Plain characters -/

theorem ne_of_isPlain (h : isPlain c = true) (d : Char) (hd : isPlain d = false) : c ≠ d := by
  rintro rfl
  exact Bool.false_ne_true (hd.symm.trans h)

theorem isOperatorStart_of_isPlain (h : isPlain c = true) : isOperatorStart c = false := by
  have hNone : ";&|<>()".toList.all (fun d => !isPlain d) = true := by decide
  refine Bool.eq_false_iff.mpr fun hStart => ?_
  have hMeant := List.all_eq_true.mp hNone c (List.contains_iff_mem.mp hStart)
  simp [h] at hMeant

theorem isBlank_of_isPlain (h : isPlain c = true) : isBlank c = false := by
  simp [isBlank, ne_of_isPlain h ' ' rfl, ne_of_isPlain h '\t' rfl]

theorem Nesting.step_plain (h : isPlain c = true) (hc : c ≠ '\\') : Nesting.none.step c = Nesting.none := by
  simp [Nesting.step, Nesting.none, Nesting.afterDollar, Nesting.outside, Nesting.plain, hc, ne_of_isPlain h '\'' rfl,
    ne_of_isPlain h '"' rfl, ne_of_isPlain h '\x60' rfl, ne_of_isPlain h '$' rfl]

theorem Lexer.fresh_plain (h : isPlain c = true) (tokens : List Token) (word : List Char) :
    (inWord tokens word).fresh c = (inWord tokens word).extend c := by
  simp [fresh, inWord, Nesting.none, isBlank_of_isPlain h, isOperatorStart_of_isPlain h, ne_of_isPlain h '\n' rfl,
    ne_of_isPlain h '#' rfl]

theorem Lexer.step_plain (h : isPlain c = true) (hc : c ≠ '\\') (tokens : List Token) (word : List Char) :
    (inWord tokens word).step c = inWord tokens (c :: word) := by
  have hStep : (inWord tokens word).step c = (inWord tokens word).fresh c := rfl
  rw [hStep, fresh_plain h, extend, inWord, inWord, Nesting.step_plain h hc]

theorem Lexer.read_plain (h : text.all isPlain = true) (hText : '\\' ∉ text) (tokens : List Token) (word : List Char) :
    (inWord tokens word).read text = inWord tokens (text.reverse ++ word) := by
  induction text generalizing word with
  | nil => rfl
  | cons c rest ih =>
    simp only [List.all_cons, Bool.and_eq_true] at h
    simp only [List.mem_cons, not_or] at hText
    rw [read_cons, step_plain h.1 (Ne.symm hText.1), ih h.2 hText.2, List.reverse_cons, List.append_assoc]
    rfl

/-! ### Quoted text -/

def Lexer.inQuotes (tokens : List Token) (word : List Char) : Lexer :=
  ⟨tokens, word, [], Nesting.none.push .single, false⟩

theorem Lexer.step_inQuotes (hc : c ≠ '\'') (tokens : List Token) (word : List Char) :
    (inQuotes tokens word).step c = inQuotes tokens (c :: word) := by
  simp [step, inQuotes, Nesting.none, Nesting.push, extend, Nesting.step, Nesting.afterDollar, hc]

theorem Lexer.read_quotedChar (tokens : List Token) (word : List Char) (c : Char) :
    (inQuotes tokens word).read (quotedChar c) = inQuotes tokens ((quotedChar c).reverse ++ word) := by
  by_cases hc : c = '\''
  · subst hc
    rfl
  · rw [quotedChar, if_neg hc]
    exact step_inQuotes hc tokens word

theorem Lexer.read_quotedText (text : List Char) (tokens : List Token) (word : List Char) :
    (inQuotes tokens word).read (text.flatMap quotedChar) =
      inQuotes tokens ((text.flatMap quotedChar).reverse ++ word) := by
  induction text generalizing word with
  | nil => rfl
  | cons c rest ih =>
    rw [List.flatMap_cons, read_append, read_quotedChar, ih, List.reverse_append, List.append_assoc]

theorem Lexer.isWord_quoted (text : List Char) : IsWord ('\'' :: text.flatMap quotedChar ++ ['\'']) := by
  refine ⟨by simp, fun tokens => ?_⟩
  have hOpen : (between tokens).step '\'' = inQuotes tokens ['\''] := rfl
  have hClose (word : List Char) : (inQuotes tokens word).step '\'' = inWord tokens ('\'' :: word) := rfl
  rw [List.cons_append, read_cons, hOpen, read_append, read_quotedText]
  exact (hClose _).trans (by simp)

theorem Lexer.isWord_plain (hSome : text ≠ []) (h : text.all isPlain = true) (hText : '\\' ∉ text) : IsWord text :=
  ⟨hSome, fun tokens => (read_plain h hText tokens []).trans (by rw [List.append_nil])⟩

/-! ### Values -/

theorem splitOpened_single_end (rest : List Char) : splitOpened .single ('\'' :: rest) = ([], rest) := rfl

theorem splitOpened_single_cons (hc : c ≠ '\'') (rest : List Char) :
    splitOpened .single (c :: rest) = (c :: (splitOpened .single rest).1, (splitOpened .single rest).2) := by
  have hStep : (Nesting.none.push .single).step c = Nesting.none.push .single := by
    simp [Nesting.step, Nesting.none, Nesting.push, Nesting.afterDollar, hc]
  rw [splitOpened, splitFrame, hStep]
  rfl

theorem valueWithin_quoted (text : List Char) (hSteps : (text.flatMap quotedChar).length < steps) :
    valueWithin steps ('\'' :: text.flatMap quotedChar ++ ['\'']) = some text := by
  induction text generalizing steps with
  | nil =>
    obtain ⟨n, rfl⟩ : ∃ n, steps = n + 1 := ⟨steps - 1, by omega⟩
    exact (valueWithin_single n ['\'']).trans (by rw [splitOpened_single_end, valueWithin_nil]; rfl)
  | cons c rest ih =>
    rw [List.flatMap_cons, List.length_append] at hSteps
    by_cases hc : c = '\''
    · subst hc
      have hChar : (quotedChar '\'').length = 4 := rfl
      obtain ⟨n, rfl⟩ : ∃ n, steps = n + 1 + 1 := ⟨steps - 2, by omega⟩
      have hn : (rest.flatMap quotedChar).length < n := by omega
      have hText : '\'' :: ('\'' :: rest).flatMap quotedChar ++ ['\''] =
        '\'' :: '\'' :: '\\' :: '\'' :: ('\'' :: rest.flatMap quotedChar ++ ['\'']) := rfl
      rw [hText, valueWithin_single, splitOpened_single_end, valueWithin_escaped, ih hn]
      rfl
    · obtain ⟨n, rfl⟩ : ∃ n, steps = n + 1 := ⟨steps - 1, by omega⟩
      have hChar : quotedChar c = [c] := if_neg hc
      rw [hChar, List.length_singleton] at hSteps
      have hRest : valueWithin (n + 1) ('\'' :: rest.flatMap quotedChar ++ ['\'']) = some rest := ih (by omega)
      rw [List.cons_append, valueWithin_single] at hRest
      obtain ⟨after, hAfter, hInside⟩ := Option.map_eq_some_iff.mp hRest
      rw [List.flatMap_cons, hChar, List.singleton_append, List.cons_append, List.cons_append, valueWithin_single,
        splitOpened_single_cons hc, hAfter, Option.map_some, List.cons_append, hInside]

theorem partsWithin_plain {rest : List Char} (h : isPlain c = true)
    (hLone : ∀ d tail, c = '\\' → rest = d :: tail → False) (n : Nat) :
    partsWithin (n + 1) (c :: rest) = .text [c] false :: partsWithin n rest := by
  rw [partsWithin.eq_def]
  dsimp only
  split
  case h_1 hWord => cases hWord
  case h_2 hWord =>
    cases hWord
    exact absurd rfl fun hc => hLone _ _ hc rfl
  case h_3 hWord | h_4 hWord | h_5 hWord | h_6 hWord =>
    cases hWord
    cases h
  case h_7 hWord =>
    cases hWord
    rfl

def unescape : List Char → List Char
  | '\\' :: c :: rest => c :: unescape rest
  | c :: rest => c :: unescape rest
  | [] => []

theorem valueWithin_plain (h : text.all isPlain = true) (hSteps : text.length ≤ steps) :
    valueWithin steps text = some (unescape text) := by
  fun_induction unescape text generalizing steps with
  | case1 c rest ih =>
    simp only [List.all_cons, Bool.and_eq_true] at h
    obtain ⟨n, rfl⟩ : ∃ n, steps = n + 1 := ⟨steps - 1, by simp at hSteps; omega⟩
    rw [valueWithin_escaped, ih h.2.2 (by simp at hSteps; omega)]
    rfl
  | case2 c rest hLone ih =>
    simp only [List.all_cons, Bool.and_eq_true] at h
    obtain ⟨n, rfl⟩ : ∃ n, steps = n + 1 := ⟨steps - 1, by simp at hSteps; omega⟩
    have hPart : (Part.text [c] false).plain? = some [c] := by
      simp [Part.plain?, isPatternChar, ne_of_isPlain h.1 '*' rfl, ne_of_isPlain h.1 '?' rfl, ne_of_isPlain h.1 '[' rfl]
    rw [valueWithin_of_parts (partsWithin_plain h.1 hLone n) hPart, ih h.2 (by simpa using hSteps)]
    rfl
  | case3 => exact valueWithin_nil steps

theorem length_unescape_le (text : List Char) : (unescape text).length ≤ text.length := by
  fun_induction unescape text <;> simp <;> omega

theorem unescape_of_not_mem (h : '\\' ∉ text) : unescape text = text := by
  fun_induction unescape text with
  | case1 => simp at h
  | case2 c rest hLone ih => rw [ih fun hRest => h (List.mem_cons_of_mem c hRest)]
  | case3 => rfl

theorem not_mem_dropLast_of_unescape (h : unescape text = text) : '\\' ∉ text.dropLast := by
  fun_induction unescape text with
  | case1 c rest ih =>
    have hLength := congrArg List.length h
    have hRest := length_unescape_le rest
    simp only [List.length_cons] at hLength
    omega
  | case2 c rest hLone ih =>
    cases rest with
    | nil => simp
    | cons d rest =>
      have hFirst : c ≠ '\\' := fun hc => hLone d rest hc rfl
      rw [List.dropLast_cons_cons, List.mem_cons, not_or]
      exact ⟨Ne.symm hFirst, ih (List.cons.inj h).2⟩
  | case3 => simp

/-! ### Arguments -/

/-- A shell takes the text for one word wherever an argument can stand, and in every session it makes the one argument
of it. -/
structure ReadsAs (text arg : String) : Prop where
  word (before after : String) (earlier later : List Token) :
    (Lexer.start.read before.toList).isComplete = true → tokens? before = some earlier →
      EndsWord after.toList → tokens? after = some later →
        tokens? (before ++ " " ++ text ++ after) = some (earlier ++ .word text.toList :: later)
  value (substitute : List Char → Run ByteArray) (s : Session) :
    (expandWords substitute [text.toList]).run.run s = (.ok [arg], s)

theorem readsAs_of_isWord {text arg : String} (hWord : Lexer.IsWord text.toList)
    (hValue : value? text.toList = some arg.toList) : ReadsAs text arg where
  word before after earlier later hComplete hBefore hEnds hAfter := by
    have hLine : (before ++ " " ++ text ++ after).toList = before.toList ++ ' ' :: text.toList ++ after.toList := by
      simp
    rw [tokens?, hLine]
    exact Lexer.finish?_word_between hComplete hBefore hWord hEnds hAfter
  value substitute s := by
    simpa using expandWords_of_value? substitute hValue hWord.1 s

theorem quote_of_plain {arg : String} (hSome : arg ≠ "") (h : arg.toList.all isPlain = true) : quote arg = arg :=
  if_pos (by simp [hSome, h])

theorem toList_quote {arg : String} (h : arg ≠ "" → arg.toList.all isPlain = false) :
    (quote arg).toList = '\'' :: arg.toList.flatMap quotedChar ++ ['\''] := by
  rw [quote, if_neg fun hPlain => ?_, String.toList_ofList]
  simp only [Bool.and_eq_true, decide_eq_true_eq] at hPlain
  exact Bool.false_ne_true ((h hPlain.1).symm.trans hPlain.2)

theorem readsAs_quoted {arg : String} (h : arg ≠ "" → arg.toList.all isPlain = false) : ReadsAs (quote arg) arg := by
  refine readsAs_of_isWord ?_ ?_
  · rw [toList_quote h]
    exact Lexer.isWord_quoted arg.toList
  · rw [toList_quote h]
    refine value?_of_valueWithin (by simp) (valueWithin_quoted arg.toList ?_)
    rw [List.length_append, List.length_cons, List.length_singleton]
    omega

theorem value?_plain (hText : text.all isPlain = true) : value? text = some (unescape text) := by
  refine value?_of_valueWithin (fun hStart => ?_) (valueWithin_plain hText (Nat.le_refl _))
  obtain ⟨rest, rfl⟩ := List.head?_eq_some_iff.mp hStart
  cases hText

theorem readsAs_plain {arg : String} (hSome : arg ≠ "") (h : arg.toList.all isPlain = true)
    (hText : '\\' ∉ arg.toList) : ReadsAs arg arg :=
  readsAs_of_isWord (Lexer.isWord_plain (by simpa using hSome) h hText)
    ((value?_plain h).trans (by rw [unescape_of_not_mem hText]))

/-- A backslash at the end of a word takes the blank after it into the word. -/
theorem tokens?_joined (hText : text.all isPlain = true) (hNone : '\\' ∉ text) :
    tokens? (" " ++ String.ofList (text ++ ['\\']) ++ " x") = some [.word (text ++ ['\\', ' ', 'x'])] := by
  have hLine : (" " ++ String.ofList (text ++ ['\\']) ++ " x").toList = ' ' :: text ++ ['\\', ' ', 'x'] := by simp
  have hBlank : Lexer.start.step ' ' = Lexer.inWord [] [] := rfl
  have hJoined (word : List Char) :
    (Lexer.inWord [] word).read ['\\', ' ', 'x'] = Lexer.inWord [] ('x' :: ' ' :: '\\' :: word) := rfl
  rw [tokens?, hLine, List.cons_append, Lexer.read_cons, hBlank, Lexer.read_append, Lexer.read_plain hText hNone,
    hJoined, Lexer.finish?_inWord [] (by simp)]
  simp

theorem not_mem_of_readsAs {arg : String} (h : ReadsAs arg arg) (hPlain : arg.toList.all isPlain = true) :
    '\\' ∉ arg.toList := by
  intro hMem
  have hSome : arg.toList ≠ [] := List.ne_nil_of_mem hMem
  have hValue : unescape arg.toList = arg.toList := by
    have hArg := h.value (fun _ => pure .empty) (Session.start .empty [] "sh" [])
    rw [expandWords_of_value? _ (value?_plain hPlain) hSome] at hArg
    have hSame := List.head_eq_of_cons_eq (Except.ok.inj (Prod.mk.inj hArg).1)
    exact String.toList_ofList.symm.trans (congrArg String.toList hSame)
  have hInit : '\\' ∉ arg.toList.dropLast := not_mem_dropLast_of_unescape hValue
  have hLast : arg.toList = arg.toList.dropLast ++ ['\\'] := by
    rw [← List.dropLast_concat_getLast hSome, List.mem_append, List.mem_singleton] at hMem
    rw [hMem.resolve_left hInit, List.dropLast_concat_getLast]
  have hTokens := h.word "" " x" [] [.word ['x']] rfl rfl (by simp [EndsWord, isEnding, isBlank]) rfl
  have hInitPlain : arg.toList.dropLast.all isPlain = true :=
    List.all_eq_true.mpr fun c hc => List.all_eq_true.mp hPlain c (List.dropLast_subset _ hc)
  have hJoined := tokens?_joined hInitPlain hInit
  rw [← hLast, String.ofList_toList] at hJoined
  have hSame := hTokens.symm.trans hJoined
  simp at hSame

/-- Exactly the arguments that are quoted, or have no backslash, are read back. -/
theorem readsAs_quote_iff (arg : String) :
    ReadsAs (quote arg) arg ↔ (arg.toList.all isPlain = true → '\\' ∉ arg.toList) := by
  by_cases hPlain : arg ≠ "" ∧ arg.toList.all isPlain = true
  · rw [quote_of_plain hPlain.1 hPlain.2]
    exact ⟨not_mem_of_readsAs, fun h => readsAs_plain hPlain.1 hPlain.2 (h hPlain.2)⟩
  · have hQuoted : arg ≠ "" → arg.toList.all isPlain = false := fun hSome =>
      Bool.eq_false_iff.mpr fun h => hPlain ⟨hSome, h⟩
    refine iff_of_true (readsAs_quoted hQuoted) fun h hMem => ?_
    by_cases hSome : arg = ""
    · simp [hSome] at hMem
    · exact hPlain ⟨hSome, h⟩

theorem not_readsAs_quote_backslash :
    quote "a\\b" = "a\\b" ∧ value? (quote "a\\b").toList = some "ab".toList ∧ ¬ ReadsAs (quote "a\\b") "a\\b" := by
  have hQuote : quote "a\\b" = "a\\b" := by decide
  refine ⟨hQuote, by decide, fun h => ?_⟩
  rw [hQuote] at h
  exact not_mem_of_readsAs h (by decide) (by decide)

end ClientRegistry.Shell
