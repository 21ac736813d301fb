import ClientRegistry.Proofs.Shell.Reading
import ClientRegistry.Shell.Document

/-!
# Reading a script piece by piece

A script is read line by line, because at the end of a line the lines that follow may be taken for a
document. Up to a first part without documents it is read as a command line is, character by character;
from there on it is read as if the rest stood alone, with the tokens of the first part before its own.
-/

set_option autoImplicit false

namespace ClientRegistry.Shell

def Token.ofDocument : Token → Bool
  | .operator text => text = "<<".toList || text = "<<-".toList
  | .document _ _ => true
  | _ => false

def NoDocuments (ts : List Token) : Prop := ts.any Token.ofDocument = false

theorem noDocuments_append_iff {ts us : List Token} : NoDocuments (ts ++ us) ↔ NoDocuments ts ∧ NoDocuments us := by
  simp [NoDocuments]

theorem noDocuments_reverse_iff {ts : List Token} : NoDocuments ts.reverse ↔ NoDocuments ts := by
  simp [NoDocuments]

/-! ### Filling in documents -/

theorem length_splitDocument_le (delimiter : List Char) (strips : Bool) (lines : List (List Char)) :
    (splitDocument delimiter strips lines).2.length ≤ lines.length := by
  induction lines with
  | nil => exact Nat.le_refl _
  | cons line rest ih =>
    rw [splitDocument]
    generalize (if strips = true then line.dropWhile (· = '\t') else line) = stripped
    dsimp only
    split
    · simp
    · split
      · simp
      · exact Nat.le_succ_of_le ih

variable {t : Token} {ts : List Token} {lines : List (List Char)}

theorem fillDocuments_nil (lines : List (List Char)) : fillDocuments [] lines = ([], lines) := by
  unfold fillDocuments
  rfl

theorem fillDocuments_cons (h : t.ofDocument = false) (ts : List Token) (lines : List (List Char)) :
    fillDocuments (t :: ts) lines = (t :: (fillDocuments ts lines).1, (fillDocuments ts lines).2) := by
  rw [fillDocuments.eq_def]
  split
  case h_1 hTokens | h_2 hTokens =>
    cases hTokens
    cases h
  case h_3 hTokens =>
    cases hTokens
    rfl
  case h_4 hTokens => cases hTokens

theorem exists_fill_eq (strips : Bool) (w : List Char) (rest : List Token) (lines : List (List Char)) :
    ∃ text expands after, after.length ≤ lines.length ∧
      fillDocuments.fill strips w rest lines =
        (.document text expands :: (fillDocuments rest after).1, (fillDocuments rest after).2) := by
  unfold fillDocuments.fill
  exact ⟨_, _, _, length_splitDocument_le _ _ _, rfl⟩

/-- A token stays, or it and the word after it become a document of some of the lines. -/
theorem fillDocuments_cases (t : Token) (ts : List Token) (lines : List (List Char)) :
    fillDocuments (t :: ts) lines = (t :: (fillDocuments ts lines).1, (fillDocuments ts lines).2) ∨
      t.ofDocument = true ∧ ∃ w rest text expands after, ts = .word w :: rest ∧ after.length ≤ lines.length ∧
        fillDocuments (t :: ts) lines =
          (.document text expands :: (fillDocuments rest after).1, (fillDocuments rest after).2) := by
  rw [fillDocuments.eq_def]
  split
  case h_1 w rest hTokens | h_2 w rest hTokens =>
    cases hTokens
    obtain ⟨text, expands, after, hAfter, hFill⟩ := exists_fill_eq _ w rest _
    exact .inr ⟨rfl, w, rest, text, expands, after, rfl, hAfter, hFill⟩
  case h_3 hTokens =>
    cases hTokens
    exact .inl rfl
  case h_4 hTokens => cases hTokens

theorem any_fillDocuments (ts : List Token) (lines : List (List Char)) :
    (fillDocuments ts lines).1.any Token.ofDocument = ts.any Token.ofDocument := by
  match ts with
  | [] => rw [fillDocuments_nil]
  | t :: ts =>
    rcases fillDocuments_cases t ts lines with hKept | ⟨hDocument, w, rest, text, expands, after, rfl, -, hFilled⟩
    · rw [hKept, List.any_cons, List.any_cons, any_fillDocuments ts lines]
    · rw [hFilled, List.any_cons, List.any_cons, hDocument]
      rfl
termination_by ts.length

theorem length_fillDocuments_le (ts : List Token) (lines : List (List Char)) :
    (fillDocuments ts lines).2.length ≤ lines.length := by
  match ts with
  | [] => exact Nat.le_of_eq (congrArg (·.2.length) (fillDocuments_nil lines))
  | t :: ts =>
    rcases fillDocuments_cases t ts lines with hKept | ⟨-, w, rest, text, expands, after, rfl, hAfter, hFilled⟩
    · rw [hKept]
      exact length_fillDocuments_le ts lines
    · rw [hFilled]
      exact Nat.le_trans (length_fillDocuments_le rest after) hAfter
termination_by ts.length

/-- Tokens without documents stay as they are, before those that may have some. -/
theorem fillDocuments_append (h : NoDocuments ts) (us : List Token) (lines : List (List Char)) :
    fillDocuments (ts ++ us) lines = (ts ++ (fillDocuments us lines).1, (fillDocuments us lines).2) := by
  induction ts with
  | nil => rfl
  | cons t ts ih =>
    rw [NoDocuments, List.any_cons, Bool.or_eq_false_iff] at h
    rw [List.cons_append, fillDocuments_cons h.1, ih h.2]
    rfl

theorem fillDocuments_of_noDocuments (h : NoDocuments ts) (lines : List (List Char)) :
    fillDocuments ts lines = (ts, lines) := by
  have hAppend := fillDocuments_append h [] lines
  rwa [List.append_nil, fillDocuments_nil, List.append_nil] at hAppend

namespace Lexer

variable {s : Lexer} {base : List Token} {c : Char}

/-! ### The end of a line -/

def atLineEnd (s : Lexer) (lines : List (List Char)) : Lexer × List (List Char) :=
  if s.nesting.frames = [] && s.tokens.head? = some .newline then
    let (filled, rest) := fillDocuments s.tokens.reverse lines
    ({ s with tokens := filled.reverse }, rest)
  else (s, lines)

theorem readLines_cons (n : Nat) (s : Lexer) (line next : List Char) (rest : List (List Char)) :
    readLines (n + 1) s (line :: next :: rest) =
      readLines n ((s.read (line ++ ['\n'])).atLineEnd (next :: rest)).1
        ((s.read (line ++ ['\n'])).atLineEnd (next :: rest)).2 := by
  rw [readLines.eq_def, atLineEnd]
  dsimp only
  split <;> rfl

theorem atLineEnd_of_noDocuments (h : NoDocuments s.tokens) (lines : List (List Char)) :
    s.atLineEnd lines = (s, lines) := by
  rw [atLineEnd, fillDocuments_of_noDocuments (noDocuments_reverse_iff.mpr h)]
  dsimp only
  rw [List.reverse_reverse]
  exact ite_self _

theorem length_atLineEnd_le (s : Lexer) (lines : List (List Char)) : (s.atLineEnd lines).2.length ≤ lines.length := by
  rw [atLineEnd]
  split
  · exact length_fillDocuments_le _ _
  · exact Nat.le_refl _

theorem noDocuments_atLineEnd_iff (s : Lexer) (lines : List (List Char)) :
    NoDocuments (s.atLineEnd lines).1.tokens ↔ NoDocuments s.tokens := by
  rw [atLineEnd]
  split
  · dsimp only
    rw [noDocuments_reverse_iff, NoDocuments, any_fillDocuments]
    exact noDocuments_reverse_iff
  · exact Iff.rfl

theorem atLineEnd_onTop (h : NoDocuments base) (s : Lexer) (lines : List (List Char)) :
    (s.onTop base).atLineEnd lines = ((s.atLineEnd lines).1.onTop base, (s.atLineEnd lines).2) := by
  by_cases hTokens : s.tokens = []
  · have hNone : NoDocuments s.tokens := hTokens ▸ rfl
    have hBase : NoDocuments (s.onTop base).tokens := noDocuments_append_iff.mpr ⟨hNone, h⟩
    rw [atLineEnd_of_noDocuments hNone, atLineEnd_of_noDocuments hBase]
  · have hHead : (s.onTop base).tokens.head? = s.tokens.head? := by
      obtain ⟨last, earlier, hLast⟩ := List.exists_cons_of_ne_nil hTokens
      rw [onTop, hLast]
      rfl
    have hFill : fillDocuments (s.onTop base).tokens.reverse lines =
        (base.reverse ++ (fillDocuments s.tokens.reverse lines).1, (fillDocuments s.tokens.reverse lines).2) := by
      rw [onTop, List.reverse_append, fillDocuments_append (noDocuments_reverse_iff.mpr h)]
    have hFrames : (s.onTop base).nesting.frames = s.nesting.frames := rfl
    rw [atLineEnd, atLineEnd, hHead, hFill, hFrames]
    split
    · simp [onTop]
    · rfl

/-! ### All lines -/

theorem readLines_onTop (h : NoDocuments base) (n : Nat) (s : Lexer) (lines : List (List Char)) :
    readLines n (s.onTop base) lines = (readLines n s lines).onTop base := by
  induction n generalizing s lines with
  | zero => rfl
  | succ n ih =>
    match lines with
    | [] => rfl
    | [last] => exact read_onTop s base last
    | line :: next :: rest =>
      rw [readLines_cons, readLines_cons, read_onTop, atLineEnd_onTop h, ih]

/-- The number that bounds the lines has no part in what is read. -/
theorem readLines_congr {n m : Nat} (hn : lines.length ≤ n) (hm : lines.length ≤ m) (s : Lexer) :
    readLines n s lines = readLines m s lines := by
  induction n generalizing m s lines with
  | zero =>
    obtain rfl := List.length_eq_zero_iff.mp (Nat.le_zero.mp hn)
    cases m <;> rfl
  | succ n ih =>
    match lines, m with
    | [], 0 => rfl
    | [], m + 1 => rfl
    | [last], m + 1 => rfl
    | line :: next :: rest, m + 1 =>
      have hLength := length_atLineEnd_le (s.read (line ++ ['\n'])) (next :: rest)
      rw [readLines_cons, readLines_cons]
      exact ih (Nat.le_trans hLength (Nat.le_of_succ_le_succ hn)) (Nat.le_trans hLength (Nat.le_of_succ_le_succ hm)) _

/-! ### Tokens only grow -/

theorem tokens_suffix_endWord (s : Lexer) : s.tokens <:+ s.endWord.tokens := by
  rw [endWord]
  split
  · exact List.suffix_rfl
  · exact List.suffix_cons _ _

theorem tokens_suffix_endOperator (s : Lexer) : s.tokens <:+ s.endOperator.tokens := by
  rw [endOperator]
  split
  · exact List.suffix_rfl
  · exact List.suffix_cons _ _

theorem tokens_suffix_fresh (s : Lexer) (c : Char) : s.tokens <:+ (s.fresh c).tokens := by
  have hWord := tokens_suffix_endWord s
  unfold fresh
  split
  · exact List.suffix_rfl
  split
  · exact hWord
  split
  · exact hWord.trans (List.suffix_cons _ _)
  split
  · exact List.suffix_rfl
  split
  · change s.tokens <:+ (s.endWordBefore c).tokens
    rw [endWordBefore]
    split
    · exact List.suffix_cons _ _
    · exact hWord
  · exact List.suffix_rfl

theorem tokens_suffix_step (s : Lexer) (c : Char) : s.tokens <:+ (s.step c).tokens := by
  unfold step
  split
  · split
    · exact List.suffix_cons _ _
    · exact List.suffix_rfl
  split
  · split <;> exact List.suffix_rfl
  split
  · exact List.suffix_rfl
  split
  · split
    · exact List.suffix_rfl
    · exact (tokens_suffix_endOperator s).trans (tokens_suffix_fresh _ c)
  · exact tokens_suffix_fresh s c

theorem tokens_suffix_read (s : Lexer) (text : List Char) : s.tokens <:+ (s.read text).tokens := by
  induction text generalizing s with
  | nil => exact List.suffix_rfl
  | cons c rest ih => exact (tokens_suffix_step s c).trans (ih (s.step c))

theorem noDocuments_of_suffix {ts us : List Token} (h : ts <:+ us) (hNone : NoDocuments us) : NoDocuments ts := by
  obtain ⟨before, rfl⟩ := h
  exact (noDocuments_append_iff.mp hNone).2

theorem noDocuments_of_readLines {n : Nat} (h : NoDocuments (readLines n s lines).tokens) : NoDocuments s.tokens := by
  induction n generalizing s lines with
  | zero => exact h
  | succ n ih =>
    match lines with
    | [] => exact h
    | [last] => exact noDocuments_of_suffix (tokens_suffix_read s last) h
    | line :: next :: rest =>
      rw [readLines_cons] at h
      exact noDocuments_of_suffix (tokens_suffix_read s _) ((noDocuments_atLineEnd_iff _ _).mp (ih h))

/-! ### Character by character -/

def readOn (s : Lexer) (source : List Char) : Lexer := readLines (source.length + 1) s (source.splitOn '\n')

theorem readOn_nil (s : Lexer) : s.readOn [] = s := rfl

theorem length_splitOn_le (source : List Char) : (source.splitOn '\n').length ≤ source.length + 1 := by
  induction source with
  | nil => exact Nat.le_refl _
  | cons c rest ih =>
    rw [List.splitOn_cons_eq_if_modifyHead]
    split
    · exact Nat.succ_le_succ ih
    · rw [List.length_modifyHead]
      exact Nat.le_succ_of_le ih

theorem readOn_cons (hc : c ≠ '\n') (s : Lexer) (rest : List Char) : s.readOn (c :: rest) = (s.step c).readOn rest := by
  obtain ⟨first, others, hSplit⟩ := List.exists_cons_of_ne_nil (List.splitOn_ne_nil '\n' rest)
  have hLines : (c :: rest).splitOn '\n' = (c :: first) :: others := by
    rw [List.splitOn_cons_eq_if_modifyHead, if_neg (by simpa using hc), hSplit, List.modifyHead_cons]
  have hChar : readLines ((c :: rest).length + 1) s ((c :: first) :: others) =
      readLines ((c :: rest).length + 1) (s.step c) (first :: others) := by
    cases others <;> rfl
  have hLength := length_splitOn_le rest
  rw [readOn, readOn, hLines, hChar, ← hSplit]
  exact readLines_congr (Nat.le_succ_of_le hLength) hLength _

theorem readOn_newline (s : Lexer) (rest : List Char) :
    s.readOn ('\n' :: rest) =
      readLines (rest.length + 1) ((s.step '\n').atLineEnd (rest.splitOn '\n')).1
        ((s.step '\n').atLineEnd (rest.splitOn '\n')).2 := by
  obtain ⟨first, others, hSplit⟩ := List.exists_cons_of_ne_nil (List.splitOn_ne_nil '\n' rest)
  have hLines : ('\n' :: rest).splitOn '\n' = [] :: rest.splitOn '\n' := by
    rw [List.splitOn_cons_eq_if_modifyHead, if_pos (by simp)]
  rw [readOn, hLines, hSplit, List.length_cons, readLines_cons]
  rfl

theorem readOn_newline_of_noDocuments (h : NoDocuments (s.step '\n').tokens) (rest : List Char) :
    s.readOn ('\n' :: rest) = (s.step '\n').readOn rest := by
  rw [readOn_newline, atLineEnd_of_noDocuments h, readOn]

/-- After a part without documents the rest is read as it would be from there. -/
theorem readOn_append {before : List Char} (h : NoDocuments (s.read before).tokens) (after : List Char) :
    s.readOn (before ++ after) = (s.read before).readOn after := by
  induction before generalizing s with
  | nil => rfl
  | cons c rest ih =>
    rw [read_cons] at h ⊢
    rw [List.cons_append, ← ih h]
    by_cases hc : c = '\n'
    · subst hc
      exact readOn_newline_of_noDocuments (noDocuments_of_suffix (tokens_suffix_read _ rest) h) _
    · exact readOn_cons hc s _

/-- A script in which no documents are found is read like a command line. -/
theorem readOn_eq_read {source : List Char} (h : NoDocuments (s.readOn source).tokens) :
    s.readOn source = s.read source := by
  induction source generalizing s with
  | nil => rfl
  | cons c rest ih =>
    rw [read_cons]
    by_cases hc : c = '\n'
    · subst hc
      have hLine : NoDocuments (s.step '\n').tokens := by
        rw [readOn_newline] at h
        exact (noDocuments_atLineEnd_iff _ _).mp (noDocuments_of_readLines h)
      rw [readOn_newline_of_noDocuments hLine] at h ⊢
      exact ih h
    · rw [readOn_cons hc] at h ⊢
      exact ih h

theorem readOn_onTop (h : NoDocuments base) (s : Lexer) (source : List Char) :
    (s.onTop base).readOn source = (s.readOn source).onTop base :=
  readLines_onTop h _ _ _

/-! ### Words after a script -/

def ended (s : Lexer) : List Token := s.endOperator.endWord.tokens

theorem tokens_suffix_ended (s : Lexer) : s.tokens <:+ s.ended :=
  (tokens_suffix_endOperator s).trans (tokens_suffix_endWord s.endOperator)

theorem finish?_of_isComplete (h : s.isComplete = true) : s.finish? = some s.ended.reverse := by
  simp only [isComplete, Bool.and_eq_true, decide_eq_true_eq] at h
  exact if_pos h.1.1

theorem read_words {ws : List (List Char)} (hComplete : s.isComplete = true) (hWords : ∀ w ∈ ws, IsWord w) :
    (s.read (ws.flatMap (' ' :: ·))).isComplete = true ∧
      (s.read (ws.flatMap (' ' :: ·))).ended = (ws.map .word).reverse ++ s.ended := by
  induction ws generalizing s with
  | nil => exact ⟨hComplete, rfl⟩
  | cons w ws ih =>
    obtain ⟨hWord, hRest⟩ := List.forall_mem_cons.mp hWords
    have hFirst : s.read (' ' :: w) = inWord s.ended w.reverse := by
      rw [read_cons, step_blank hComplete, hWord.2]
      rfl
    have hEnded : (inWord s.ended w.reverse).ended = .word w :: s.ended := by
      have hNil : w.reverse ≠ [] := by simpa using hWord.1
      simp [ended, inWord, endOperator, endWord, hNil]
    have hMore := ih (s := inWord s.ended w.reverse) rfl hRest
    rw [hEnded] at hMore
    rw [List.flatMap_cons, read_append, hFirst, List.map_cons, List.reverse_cons, List.append_assoc]
    exact hMore

end Lexer

/-- A script that stands for itself: nothing is open at its end, and nothing after it is taken into a document. -/
structure Complete (source : List Char) (ts : List Token) : Prop where
  closed : (readScript source).isComplete = true
  tokens : (readScript source).finish? = some ts
  no_documents : NoDocuments ts

variable {before after : List Char} {ws : List (List Char)} {us : List Token}

theorem Complete.ended_read (h : Complete before ts) :
    readScript before = Lexer.start.read before ∧ (Lexer.start.read before).ended = ts.reverse := by
  have hEnded : (readScript before).ended = ts.reverse := Lexer.finish?_eq_some h.tokens
  have hNone := Lexer.noDocuments_of_suffix (Lexer.tokens_suffix_ended (readScript before))
    (hEnded ▸ noDocuments_reverse_iff.mpr h.no_documents)
  have hRead : readScript before = Lexer.start.read before := Lexer.readOn_eq_read hNone
  exact ⟨hRead, hRead ▸ hEnded⟩

theorem noDocuments_map_word (ws : List (List Char)) : NoDocuments (ws.map Token.word) := by
  simp [NoDocuments, Token.ofDocument]

/-- Words after a complete script, each after a blank, are read as these words. -/
theorem Complete.words (h : Complete before ts) (hWords : ∀ w ∈ ws, Lexer.IsWord w) :
    Complete (before ++ ws.flatMap (' ' :: ·)) (ts ++ ws.map Token.word) := by
  obtain ⟨hRead, hEnded⟩ := h.ended_read
  have hClosed := h.closed
  rw [hRead] at hClosed
  obtain ⟨hWordsClosed, hWordsEnded⟩ := Lexer.read_words hClosed hWords
  rw [hEnded, ← Lexer.read_append, ← List.reverse_append] at hWordsEnded
  rw [← Lexer.read_append] at hWordsClosed
  have hNone : NoDocuments (ts ++ ws.map Token.word) :=
    noDocuments_append_iff.mpr ⟨h.no_documents, noDocuments_map_word ws⟩
  have hScript : readScript (before ++ ws.flatMap (' ' :: ·)) =
      Lexer.start.read (before ++ ws.flatMap (' ' :: ·)) := by
    have hTokens : NoDocuments (Lexer.start.read (before ++ ws.flatMap (' ' :: ·))).tokens :=
      Lexer.noDocuments_of_suffix (Lexer.tokens_suffix_ended _)
        (hWordsEnded ▸ noDocuments_reverse_iff.mpr hNone)
    have hAppend := Lexer.readOn_append hTokens []
    rwa [List.append_nil, Lexer.readOn_nil] at hAppend
  refine ⟨hScript ▸ hWordsClosed, ?_, hNone⟩
  rw [hScript, Lexer.finish?_of_isComplete hWordsClosed, hWordsEnded, List.reverse_reverse]

/-- What comes after a complete script and a blank is read as if it stood alone. -/
theorem Complete.finish?_append (h : Complete before ts) (hAfter : (readScript after).finish? = some us) :
    (readScript (before ++ ' ' :: after)).finish? = some (ts ++ us) := by
  obtain ⟨hRead, hEnded⟩ := h.ended_read
  have hClosed := h.closed
  rw [hRead] at hClosed
  have hNone : NoDocuments (Lexer.start.read before).ended := hEnded ▸ noDocuments_reverse_iff.mpr h.no_documents
  have hTokens := Lexer.noDocuments_of_suffix (Lexer.tokens_suffix_ended _) hNone
  have hScript : readScript (before ++ ' ' :: after) = (readScript after).onTop (Lexer.start.read before).ended := by
    calc
      readScript (before ++ ' ' :: after)
        = (Lexer.start.read before).readOn (' ' :: after) := Lexer.readOn_append hTokens _
      _ = ((Lexer.start.read before).step ' ').readOn after := Lexer.readOn_cons (by decide) _ after
      _ = (Lexer.start.onTop (Lexer.start.read before).ended).readOn after :=
          congrArg (Lexer.readOn · after) (Lexer.step_blank hClosed)
      _ = (readScript after).onTop (Lexer.start.read before).ended := Lexer.readOn_onTop hNone _ after
  rw [hScript, Lexer.finish?_onTop, hAfter, hEnded, List.reverse_reverse, Option.map_some]

end ClientRegistry.Shell
