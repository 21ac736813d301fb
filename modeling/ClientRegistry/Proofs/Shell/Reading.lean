import ClientRegistry.Shell.Token

/-!
# Reading a command line piece by piece

What a lexer has read already does not change how it reads on. So after a blank that is not quoted a text is
read as if it stood alone, and its tokens come after the earlier ones.
-/

set_option autoImplicit false

namespace ClientRegistry.Shell

def isEnding (c : Char) : Bool := isBlank c || c = '\n' || (isOperatorStart c && c ≠ '<' && c ≠ '>')

def EndsWord (text : List Char) : Prop := ∀ c ∈ text.head?, isEnding c = true

theorem blank_not_mem_operators {op : String} (h : op ∈ operators) : ' ' ∉ op.toList := by
  simp only [operators, List.mem_cons, List.not_mem_nil, or_false] at h
  rcases h with rfl | rfl | rfl | rfl | rfl | rfl | rfl | rfl | rfl | rfl | rfl | rfl | rfl | rfl | rfl | rfl | rfl <;>
    decide

theorem isOperator_concat_blank (op : List Char) : isOperator (op ++ [' ']) = false := by
  rw [isOperator, List.any_eq_false]
  intro o ho hSame
  apply blank_not_mem_operators ho
  rw [of_decide_eq_true hSame]
  simp

namespace Lexer

def between (tokens : List Token) : Lexer := ⟨tokens, [], [], Nesting.none, false⟩

def onTop (s : Lexer) (base : List Token) : Lexer := { s with tokens := s.tokens ++ base }

variable {s : Lexer} {base tokens : List Token} {c : Char}

theorem onTop_ite (p : Prop) [Decidable p] (a b : Lexer) (base : List Token) :
    (if p then a else b).onTop base = if p then a.onTop base else b.onTop base :=
  apply_ite (onTop · base) p a b

theorem endWord_onTop (s : Lexer) (base : List Token) : (s.onTop base).endWord = s.endWord.onTop base := by
  rw [endWord, endWord, onTop_ite]
  rfl

theorem endOperator_onTop (s : Lexer) (base : List Token) :
    (s.onTop base).endOperator = s.endOperator.onTop base := by
  rw [endOperator, endOperator, onTop_ite]
  rfl

theorem endWordBefore_onTop (s : Lexer) (base : List Token) (c : Char) :
    (s.onTop base).endWordBefore c = (s.endWordBefore c).onTop base := by
  rw [endWordBefore, endWordBefore, endWord_onTop, onTop_ite]
  rfl

theorem fresh_onTop (s : Lexer) (base : List Token) (c : Char) :
    (s.onTop base).fresh c = (s.fresh c).onTop base := by
  simp only [fresh, endWord_onTop, endWordBefore_onTop, onTop_ite]
  rfl

theorem step_onTop (s : Lexer) (base : List Token) (c : Char) : (s.onTop base).step c = (s.step c).onTop base := by
  simp only [step, endOperator_onTop, fresh_onTop, onTop_ite]
  rfl

theorem read_onTop (s : Lexer) (base : List Token) (text : List Char) :
    (s.onTop base).read text = (s.read text).onTop base := by
  induction text generalizing s with
  | nil => rfl
  | cons c rest ih => exact (congrArg (·.read rest) (step_onTop s base c)).trans (ih (s.step c))

theorem finish?_onTop (s : Lexer) (base : List Token) :
    (s.onTop base).finish? = s.finish?.map (base.reverse ++ ·) := by
  rw [finish?, finish?, endOperator_onTop, endWord_onTop]
  by_cases h : s.nesting.frames = [] <;> simp [onTop, h]

theorem read_cons (s : Lexer) (c : Char) (rest : List Char) : s.read (c :: rest) = (s.step c).read rest := rfl

/-! ### A word between two texts -/

def inWord (tokens : List Token) (word : List Char) : Lexer := ⟨tokens, word, [], Nesting.none, false⟩

/-- Where a word can start, all of the text is read into one. -/
def IsWord (text : List Char) : Prop :=
  text ≠ [] ∧ ∀ tokens, (between tokens).read text = inWord tokens text.reverse

theorem finish?_eq_some (h : s.finish? = some tokens) : s.endOperator.endWord.tokens = tokens.reverse := by
  rw [finish?] at h
  split at h
  · rw [← Option.some.inj h, List.reverse_reverse]
  · cases h

theorem step_blank (h : s.isComplete = true) : s.step ' ' = between s.endOperator.endWord.tokens := by
  simp only [isComplete, Bool.and_eq_true, decide_eq_true_eq, Bool.not_eq_true'] at h
  obtain ⟨⟨hFrames, hEscaped⟩, hComment⟩ := h
  have hFresh (s' : Lexer) (hComment : s'.comment = false) (hOperator : s'.operator = [])
      (hFrames : s'.nesting.frames = []) : s'.fresh ' ' = between s'.endWord.tokens := by
    have hEnd : s'.endWord.word = [] ∧ s'.endWord.operator = [] ∧ s'.endWord.comment = false := by
      rw [endWord]
      split
      · exact ⟨‹_›, hOperator, hComment⟩
      · exact ⟨rfl, hOperator, hComment⟩
    have hStep : s'.fresh ' ' = { s'.endWord with nesting := s'.nesting.plain } := by
      simp [fresh, isBlank]
    rw [hStep, Nesting.plain, hFrames]
    cases hWhole : s'.endWord
    rw [hWhole] at hEnd
    obtain ⟨rfl, rfl, rfl⟩ := hEnd
    rfl
  rw [step, if_neg (by simp [hComment]), if_neg (by simp [hEscaped]), if_neg (by simp [hFrames])]
  by_cases hOperator : s.operator = []
  · rw [if_neg (by simp [hOperator]), hFresh s hComment hOperator hFrames, endOperator, if_pos hOperator]
  · rw [if_pos hOperator, if_neg (by simp [isOperator_concat_blank])]
    have hEnded : s.endOperator = { s with tokens := .operator s.operator :: s.tokens, operator := [] } := by
      rw [endOperator, if_neg hOperator]
    rw [hFresh s.endOperator (by rw [hEnded]; exact hComment) (by rw [hEnded]) (by rw [hEnded]; exact hFrames)]

theorem step_inWord {word : List Char} (hWord : word ≠ []) (hEnds : isEnding c = true) :
    (inWord tokens word).step c = (start.step c).onTop (.word word.reverse :: tokens) := by
  by_cases hBlank : isBlank c = true
  · simp [step, inWord, start, fresh, Nesting.none, hBlank, endWord, hWord, onTop]
  by_cases hLine : c = '\n'
  · subst hLine
    simp [step, inWord, start, fresh, Nesting.none, isBlank, endWord, hWord, onTop]
  · obtain ⟨⟨hStart, hIn⟩, hOut⟩ : (isOperatorStart c = true ∧ c ≠ '<') ∧ c ≠ '>' := by
      simpa [isEnding, hBlank, hLine] using hEnds
    have hHash : c ≠ '#' := by
      rintro rfl
      cases hStart
    simp [step, inWord, start, fresh, Nesting.none, hBlank, hLine, hStart, hHash, hIn, hOut, endWordBefore, endWord,
      hWord, onTop]

theorem finish?_inWord (tokens : List Token) {word : List Char} (hWord : word ≠ []) :
    (inWord tokens word).finish? = some (tokens.reverse ++ [.word word.reverse]) := by
  simp [finish?, inWord, Nesting.none, endOperator, endWord, hWord]

theorem finish?_word_between {before text after : List Char} {ts us : List Token}
    (hComplete : (start.read before).isComplete = true) (hBefore : (start.read before).finish? = some ts)
    (hWord : IsWord text) (hEnds : EndsWord after) (hAfter : (start.read after).finish? = some us) :
    (start.read (before ++ ' ' :: text ++ after)).finish? = some (ts ++ .word text :: us) := by
  have hText : start.read (before ++ ' ' :: text) = inWord ts.reverse text.reverse := by
    rw [read_append, read_cons, step_blank hComplete, finish?_eq_some hBefore, hWord.2]
  have hReversed : text.reverse ≠ [] := by simpa using hWord.1
  rw [read_append, hText]
  cases after with
  | nil =>
    have hNone : us = [] := (Option.some.inj hAfter).symm
    rw [hNone, ← List.reverse_reverse ts, ← List.reverse_reverse text]
    simpa [read] using finish?_inWord ts.reverse hReversed
  | cons c rest =>
    rw [read_cons, step_inWord hReversed (hEnds c rfl), read_onTop, finish?_onTop, ← read_cons, hAfter]
    simp

end Lexer

end ClientRegistry.Shell
