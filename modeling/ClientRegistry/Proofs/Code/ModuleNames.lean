import ClientRegistry.Text.Blank

/-!
# The names that a module binds

A module is read in two steps, each a fold: its characters as words, literals and marks, with blanks and
comments between them, and these as statements. A statement is an import or a declaration and binds names; an
empty one and one of a literal alone bind none. The reader knows no other form of a statement, and neither
templates, regular expressions nor escapes outside of literals. What it does not know it refuses, and the rest
of the text with it, so that no name of a text that it reads escapes it. A text that ends within a comment, a
literal or a statement is refused as well.

Text that is read from within brackets ends within them if its own brackets are matched.
-/

set_option autoImplicit false

namespace ClientRegistry.Code

inductive Token where
  | word (name : String)
  | literal
  | mark (c : Char)
  deriving DecidableEq, Repr

inductive Place where
  /-- Outside of literals and comments, after the characters of a word. -/
  | code (word : List Char)
  /-- After a slash, which begins a comment or is not read. -/
  | slash
  | lineComment
  | comment
  /-- After a star in a comment, which the next character may close. -/
  | star
  | quoted (quote : Char)
  | escaped (quote : Char)
  /-- After an escaped return, which takes a line feed with it. -/
  | continued (quote : Char)
  | refused
  deriving DecidableEq, Repr

/-- The characters of names: outside of the ASCII characters all but blanks. -/
def isNamePart (c : Char) : Bool := c.isAlphanum || c == '_' || c == '$' || (0x7F < c.toNat && !Text.isBlank c)

def isMark (c : Char) : Bool := c ∈ ['\x7b', '\x7d', '(', ')', '[', ']', '<', '>', ',', ';', ':', '.', '=']

def isQuote (c : Char) : Bool := c == '"' || c == '\''

def isLineEnd (c : Char) : Bool := c ∈ ['\n', '\r', '\u2028', '\u2029']

/-! ### Characters -/

namespace Place

def between (c : Char) : Place :=
  if Text.isBlank c || isMark c then code []
  else if isQuote c then quoted c
  else if c = '/' then slash
  else refused

def inLiteral (quote c : Char) : Place :=
  if c = quote then code []
  else if c = '\\' then escaped quote
  else if c = '\n' ∨ c = '\r' then refused
  else quoted quote

def step : Place → Char → Place
  | code word, c => if isNamePart c then code (word ++ [c]) else between c
  | slash, c => if c = '/' then lineComment else if c = '*' then comment else refused
  | lineComment, c => if isLineEnd c then code [] else lineComment
  | comment, c => if c = '*' then star else comment
  | star, c => if c = '/' then code [] else if c = '*' then star else comment
  | quoted quote, c => inLiteral quote c
  | escaped quote, c => if c = '\r' then continued quote else quoted quote
  | continued quote, c => if c = '\n' then quoted quote else inLiteral quote c
  | refused, _ => refused

def after (p : Place) (s : List Char) : Place := s.foldl step p

def tokensAt : Place → Char → List Token
  | code word, c =>
    if isNamePart c then []
    else (if word = [] then [] else [.word (String.ofList word)]) ++
      if isMark c then [.mark c] else if isQuote c then [.literal] else []
  | _, _ => []

def tokens : Place → List Char → List Token
  | _, [] => []
  | p, c :: rest => p.tokensAt c ++ (p.step c).tokens rest

def isEnd (p : Place) : Bool := p = code [] || p = lineComment

variable {p q r : Place} {s s' : List Char} {ts ts' : List Token}

@[simp] theorem after_nil (p : Place) : p.after [] = p := rfl

@[simp] theorem after_cons (p : Place) (c : Char) (s : List Char) : p.after (c :: s) = (p.step c).after s := rfl

theorem after_append (p : Place) (s s' : List Char) : p.after (s ++ s') = (p.after s).after s' := List.foldl_append

theorem tokens_append (p : Place) (s s' : List Char) : p.tokens (s ++ s') = p.tokens s ++ (p.after s).tokens s' := by
  induction s generalizing p with
  | nil => rfl
  | cons c rest ih => rw [List.cons_append, tokens, tokens, ih, after_cons, List.append_assoc]

theorem after_refused (s : List Char) : refused.after s = refused := by
  induction s with
  | nil => rfl
  | cons c rest ih => exact ih

theorem after_comment (h : '*' ∉ s) : comment.after s = comment := by
  induction s with
  | nil => rfl
  | cons c rest ih =>
    have hChar : c ≠ '*' := fun hStar => h (hStar ▸ List.mem_cons_self)
    rw [after_cons, step, if_neg hChar, ih fun hRest => h (List.mem_cons_of_mem _ hRest)]

theorem step_quoted_lineFeed (quote : Char) :
    (quoted quote).step '\n' = code [] ∨ (quoted quote).step '\n' = refused := by
  rw [step, inLiteral]
  split
  · exact .inl rfl
  · exact .inr rfl

theorem step_inLiteral_semicolon (quote : Char) :
    (inLiteral quote ';').step '\n' = code [] ∨ (inLiteral quote ';').step '\n' = refused := by
  rw [inLiteral]
  split
  · exact .inl rfl
  · exact step_quoted_lineFeed quote

/-- Whatever stands before it, the end of a statement at the end of a line leaves no literal open. -/
theorem step_semicolon_lineFeed (p : Place) :
    (p.step ';').step '\n' = code [] ∨ (p.step ';').step '\n' = comment ∨ (p.step ';').step '\n' = refused := by
  cases p with
  | code word => exact .inl rfl
  | slash => exact .inr (.inr rfl)
  | lineComment => exact .inl rfl
  | comment => exact .inr (.inl rfl)
  | star => exact .inr (.inl rfl)
  | quoted quote => exact (step_inLiteral_semicolon quote).imp_right .inr
  | escaped quote => exact (step_quoted_lineFeed quote).imp_right .inr
  | continued quote => exact (step_inLiteral_semicolon quote).imp_right .inr
  | refused => exact .inr (.inr rfl)

structure Lexes (p : Place) (s : List Char) (ts : List Token) (q : Place) : Prop where
  after_eq : p.after s = q
  tokens_eq : p.tokens s = ts

instance : Decidable (Lexes p s ts q) :=
  decidable_of_iff (p.after s = q ∧ p.tokens s = ts) ⟨fun h => ⟨h.1, h.2⟩, fun h => ⟨h.after_eq, h.tokens_eq⟩⟩

theorem Lexes.append (h : Lexes p s ts q) (h' : Lexes q s' ts' r) : Lexes p (s ++ s') (ts ++ ts') r where
  after_eq := by rw [after_append, h.after_eq, h'.after_eq]
  tokens_eq := by rw [tokens_append, h.tokens_eq, h.after_eq, h'.tokens_eq]

theorem lexes_quoted {quote : Char} (h : ∀ c ∈ s, c ∉ [quote, '\\', '\n', '\r']) :
    Lexes (quoted quote) s [] (quoted quote) := by
  induction s with
  | nil => exact ⟨rfl, rfl⟩
  | cons c rest ih =>
    have hChar := h c List.mem_cons_self
    simp only [List.mem_cons, List.not_mem_nil, or_false, not_or] at hChar
    have hStep : (quoted quote).step c = quoted quote := by simp [step, inLiteral, hChar]
    have hRest := ih fun d hd => h d (List.mem_cons_of_mem c hd)
    exact ⟨by rw [after_cons, hStep, hRest.after_eq], by rw [tokens, hStep, hRest.tokens_eq]; rfl⟩

theorem lexes_word {word : List Char} (hWord : ∀ c ∈ word, isNamePart c = true) (before : List Char) :
    Lexes (code before) word [] (code (before ++ word)) := by
  induction word generalizing before with
  | nil => exact ⟨congrArg code (List.append_nil before).symm, rfl⟩
  | cons c rest ih =>
    have hChar := hWord c List.mem_cons_self
    have hRest := ih (fun d hd => hWord d (List.mem_cons_of_mem c hd)) (before ++ [c])
    rw [← List.append_cons] at hRest
    refine ⟨?_, ?_⟩
    · rw [after_cons, step, if_pos hChar, hRest.after_eq]
    · rw [tokens, tokensAt, if_pos hChar, step, if_pos hChar, hRest.tokens_eq, List.append_nil]

/-- A word ends before a character that is no part of it. -/
theorem Lexes.word {word : List Char} (hWord : ∀ c ∈ word, isNamePart c = true) (hNil : word ≠ [])
    (hStop : s.head?.any (!isNamePart ·) = true) (h : Lexes (code []) s ts q) :
    Lexes (code []) (word ++ s) (.word (String.ofList word) :: ts) q := by
  obtain ⟨hAfter, hTokens⟩ := lexes_word hWord []
  cases s with
  | nil => cases hStop
  | cons c rest =>
    have hChar : isNamePart c = false := by simpa using hStop
    have hStep : ∀ before, (code before).step c = between c := by
      intro before
      rw [step, hChar]
      rfl
    refine ⟨?_, ?_⟩
    · rw [after_append, hAfter, ← h.after_eq, after_cons, after_cons, hStep, hStep]
    · rw [tokens_append, hAfter, hTokens, ← h.tokens_eq, tokens, tokens, hStep, hStep]
      simp [tokensAt, hChar, hNil]

end Place

/-! ### Statements -/

/-- What must come next in a module. -/
inductive Expected where
  | statement
  /-- A declaration, after `export`. -/
  | declaration
  /-- The braces of an import, after `import`. -/
  | braces
  | imported
  | separator
  /-- The word `from`. -/
  | origin
  | specifier
  | semicolon
  | constant
  | assignment
  | value
  /-- The end of a constant, or `as const` before it. -/
  | assertion
  | declared
  /-- The block of a declaration, with what stands before it. -/
  | block
  /-- The rest of a text in brackets, and what comes after it. -/
  | within (next : Expected) (closer : Char) (outer : List Char)
  | refused
  deriving DecidableEq, Repr

def keywords : List String := ["import", "export", "interface", "const", "class", "function"]

def closerOf? : Char → Option Char
  | '\x7b' => some '\x7d'
  | '(' => some ')'
  | '[' => some ']'
  | _ => none

/-- The brackets to close after a mark, innermost first. -/
def nest (closers : List Char) (c : Char) : Option (List Char) :=
  match closerOf? c with
  | some closer => some (closer :: closers)
  | none =>
    if c ∈ ['\x7d', ')', ']'] then if closers.head? = some c then some closers.tail else none
    else some closers

namespace Expected

def inside (next : Expected) : List Char → Expected
  | [] => next
  | closer :: outer => within next closer outer

def declaring (word : String) : Expected :=
  if word = "const" then constant else if word ∈ ["interface", "class", "function"] then declared else refused

def step : Expected → Token → Expected
  | statement, .word w => if w = "import" then braces else if w = "export" then declaration else declaring w
  | statement, .literal => semicolon
  | statement, .mark c => if c = ';' then statement else refused
  | declaration, .word w => declaring w
  | braces, .literal => semicolon
  | braces, .mark c => if c = '\x7b' then imported else refused
  | imported, .word w => if w ∈ keywords then refused else separator
  | imported, .mark c => if c = '\x7d' then origin else refused
  | separator, .mark c => if c = ',' then imported else if c = '\x7d' then origin else refused
  | origin, .word w => if w = "from" then specifier else refused
  | specifier, .literal => semicolon
  | semicolon, .mark c => if c = ';' then statement else refused
  | constant, .word w => if w ∈ keywords then refused else assignment
  | assignment, .mark c => if c = '=' then value else refused
  | value, .mark c => (closerOf? c).elim refused fun closer => within assertion closer []
  | assertion, .word w => if w = "as" ∨ w = "const" then assertion else refused
  | assertion, .mark c => if c = ';' then statement else refused
  | declared, .word w => if w ∈ keywords then refused else block
  | block, .word w => if w ∈ keywords then refused else block
  | block, .mark c =>
    if c = '\x7b' then within statement '\x7d' []
    else if c = '(' then within block ')' []
    else if c = ':' then block
    else refused
  | within next closer outer, .mark c => (nest (closer :: outer) c).elim refused next.inside
  | within next closer outer, _ => within next closer outer
  | _, _ => refused

def after (e : Expected) (ts : List Token) : Expected := ts.foldl step e

def bound : Expected → Token → List String
  | imported, .word name => [name]
  | constant, .word name => [name]
  | declared, .word name => [name]
  | _, _ => []

def names : Expected → List Token → List String
  | _, [] => []
  | e, t :: rest => e.bound t ++ (e.step t).names rest

end Expected

/-- The names that a module binds at its top level, in the order of its text. -/
def boundNames? (text : String) : Option (List String) :=
  if ((Place.code []).after text.toList).isEnd ∧
      Expected.statement.after ((Place.code []).tokens text.toList) = .statement then
    some (Expected.statement.names ((Place.code []).tokens text.toList))
  else none

/-- The text is a module and binds no name twice. -/
def BindsOnce (text : String) : Prop := ∃ names, boundNames? text = some names ∧ names.Nodup

/-- The brackets to close after tokens, unless one of them closes none of these. -/
def nestAll : List Char → List Token → Option (List Char)
  | closers, [] => some closers
  | closers, .word _ :: rest => nestAll closers rest
  | closers, .literal :: rest => nestAll closers rest
  | closers, .mark c :: rest => (nest closers c).bind (nestAll · rest)

namespace Expected

variable {e f g : Expected} {ts ts' : List Token} {names names' : List String}

theorem step_within (next : Expected) (closer : Char) (outer : List Char) (c : Char) :
    (within next closer outer).step (.mark c) = (nest (closer :: outer) c).elim refused next.inside := rfl

theorem step_imported {name : String} (h : name ∉ keywords) : imported.step (.word name) = separator := if_neg h

theorem after_append (e : Expected) (ts ts' : List Token) : e.after (ts ++ ts') = (e.after ts).after ts' :=
  List.foldl_append

theorem names_append (e : Expected) (ts ts' : List Token) :
    e.names (ts ++ ts') = e.names ts ++ (e.after ts).names ts' := by
  induction ts generalizing e with
  | nil => rfl
  | cons t rest ih =>
    rw [List.cons_append, Expected.names, Expected.names, ih, List.append_assoc]
    rfl

theorem after_refused (ts : List Token) : refused.after ts = refused := by
  induction ts with
  | nil => rfl
  | cons t rest ih => exact ih

structure Reads (e : Expected) (ts : List Token) (names : List String) (f : Expected) : Prop where
  after_eq : e.after ts = f
  names_eq : e.names ts = names

instance : Decidable (Reads e ts names f) :=
  decidable_of_iff (e.after ts = f ∧ e.names ts = names) ⟨fun h => ⟨h.1, h.2⟩, fun h => ⟨h.after_eq, h.names_eq⟩⟩

theorem Reads.append (h : Reads e ts names f) (h' : Reads f ts' names' g) :
    Reads e (ts ++ ts') (names ++ names') g where
  after_eq := by rw [after_append, h.after_eq, h'.after_eq]
  names_eq := by rw [names_append, h.names_eq, h.after_eq, h'.names_eq]

end Expected

/-! ### Brackets -/

theorem nest_append {closers inner : List Char} {c : Char} (h : nest closers c = some inner) (outer : List Char) :
    nest (closers ++ outer) c = some (inner ++ outer) := by
  cases hOpening : closerOf? c with
  | some closer =>
    simp only [nest, hOpening, Option.some.injEq] at h ⊢
    rw [← h, List.cons_append]
  | none =>
    simp only [nest, hOpening] at h ⊢
    split at h
    · rename_i hCloser
      rw [if_pos hCloser]
      cases closers with
      | nil => cases h
      | cons closer rest =>
        split at h
        · rename_i hHead
          cases h
          exact if_pos hHead
        · cases h
    · rename_i hOther
      cases h
      exact if_neg hOther

theorem nestAll_append {closers inner : List Char} {ts : List Token} (h : nestAll closers ts = some inner)
    (ts' : List Token) : nestAll closers (ts ++ ts') = nestAll inner ts' := by
  induction ts generalizing closers with
  | nil =>
    cases h
    rfl
  | cons t rest ih =>
    cases t with
    | word name => exact ih h
    | literal => exact ih h
    | mark c =>
      obtain ⟨middle, hMark, hRest⟩ := Option.bind_eq_some_iff.mp h
      rw [List.cons_append, nestAll, hMark, Option.bind_some, ih hRest]

/-- Within brackets no name is bound, and tokens with matched brackets stay within them. -/
theorem Expected.reads_inside {closers inner : List Char} {ts : List Token} (h : nestAll closers ts = some inner)
    (next : Expected) (closer : Char) (outer : List Char) :
    (next.inside (closers ++ closer :: outer)).Reads ts [] (next.inside (inner ++ closer :: outer)) := by
  induction ts generalizing closers with
  | nil =>
    cases h
    exact ⟨rfl, rfl⟩
  | cons t rest ih =>
    obtain ⟨first, more, hParts⟩ : ∃ first more, closers ++ closer :: outer = first :: more :=
      List.exists_cons_of_ne_nil (List.append_ne_nil_of_right_ne_nil closers (List.cons_ne_nil closer outer))
    cases t with
    | word name =>
      have hRest := ih h
      rw [hParts] at hRest ⊢
      exact ⟨hRest.after_eq, hRest.names_eq⟩
    | literal =>
      have hRest := ih h
      rw [hParts] at hRest ⊢
      exact ⟨hRest.after_eq, hRest.names_eq⟩
    | mark c =>
      obtain ⟨middle, hMark, hRest⟩ := Option.bind_eq_some_iff.mp h
      have hStep : (next.inside (closers ++ closer :: outer)).step (.mark c) =
          next.inside (middle ++ closer :: outer) := by
        rw [hParts, inside, step_within, ← hParts, nest_append hMark]
        rfl
      have hBound : (next.inside (closers ++ closer :: outer)).bound (.mark c) = [] := by
        rw [hParts]
        rfl
      have hInside := ih hRest
      exact ⟨(congrArg (after · rest) hStep).trans hInside.after_eq,
        by rw [names, hBound, hStep, hInside.names_eq]; rfl⟩

/-! ### Modules -/

structure Declares (s : List Char) (ts : List Token) (names : List String) : Prop where
  lexes : Place.Lexes (.code []) s ts (.code [])
  reads : Expected.statement.Reads ts names .statement

variable {s s' : List Char} {ts ts' : List Token} {names names' : List String}

instance : Decidable (Declares s ts names) :=
  decidable_of_iff (Place.Lexes (.code []) s ts (.code []) ∧ Expected.statement.Reads ts names .statement)
    ⟨fun h => ⟨h.1, h.2⟩, fun h => ⟨h.lexes, h.reads⟩⟩

theorem Declares.append (h : Declares s ts names) (h' : Declares s' ts' names') :
    Declares (s ++ s') (ts ++ ts') (names ++ names') :=
  ⟨h.lexes.append h'.lexes, h.reads.append h'.reads⟩

theorem Declares.boundNames?_eq {text : String} (h : Declares text.toList ts names) :
    boundNames? text = some names := by
  have hEnd : (Place.code []).isEnd = true := rfl
  rw [boundNames?, h.lexes.after_eq, h.lexes.tokens_eq, h.reads.after_eq, h.reads.names_eq, if_pos ⟨hEnd, rfl⟩]

theorem boundNames?_eq_none_of_place {text : String} (h : ((Place.code []).after text.toList).isEnd = false) :
    boundNames? text = none := by
  rw [boundNames?, h, if_neg (fun hBoth => Bool.false_ne_true hBoth.1)]

/-- Only where a statement can begin, or within brackets, is a text read on that begins with `export`. -/
theorem Expected.after_export (e : Expected) (ts : List Token) :
    e = statement ∨ (∃ next closer outer, e = within next closer outer) ∨
      e.after (.word "export" :: ts) = refused := by
  have hRefused : ∀ {f : Expected}, f.step (.word "export") = refused → f.after (.word "export" :: ts) = refused := by
    intro f hStep
    exact (congrArg (after · ts) hStep).trans (after_refused ts)
  cases e with
  | statement => exact .inl rfl
  | within next closer outer => exact .inr (.inl ⟨next, closer, outer, rfl⟩)
  | _ => exact .inr (.inr (hRefused (by decide)))

/-- The names of a text between whole statements. What comes after it closes no comment and no bracket, so
that it is read as far as it can be read by itself. -/
theorem boundNames?_between {before middle below : String} (hBefore : Declares before.toList ts names)
    (hBelow : Declares below.toList (.word "export" :: ts') names') (hStar : '*' ∉ below.toList)
    (hInside : ∀ next closer outer, (Expected.within next closer outer).Reads (.word "export" :: ts') []
      (.within next closer outer))
    (hMiddle : (Place.code []).after middle.toList = .code [] ∨ (Place.code []).after middle.toList = .comment ∨
      (Place.code []).after middle.toList = .refused) :
    boundNames? (before ++ middle ++ below) = (boundNames? middle).map fun between => names ++ between ++ names' := by
  have hAfter : (Place.code []).after (before ++ middle ++ below).toList =
      ((Place.code []).after middle.toList).after below.toList := by
    rw [String.toList_append, String.toList_append, Place.after_append, Place.after_append, hBefore.lexes.after_eq]
  rcases hMiddle with hMiddle | hMiddle | hMiddle
  · have hLexes : Place.Lexes (.code []) middle.toList ((Place.code []).tokens middle.toList) (.code []) :=
      ⟨hMiddle, rfl⟩
    have hTokens : (Place.code []).tokens (before ++ middle ++ below).toList =
        ts ++ (Place.code []).tokens middle.toList ++ .word "export" :: ts' := by
      rw [String.toList_append, String.toList_append]
      exact ((hBefore.lexes.append hLexes).append hBelow.lexes).tokens_eq
    rw [boundNames?, hAfter, hMiddle, hBelow.lexes.after_eq, hTokens, boundNames?, hMiddle]
    generalize (Place.code []).tokens middle.toList = between
    rw [Expected.after_append, Expected.after_append, hBefore.reads.after_eq, Expected.names_append,
      Expected.names_append, Expected.after_append, hBefore.reads.after_eq, hBefore.reads.names_eq]
    rcases (Expected.statement.after between).after_export ts' with hEnd | ⟨next, closer, outer, hEnd⟩ | hEnd
    · rw [hEnd, hBelow.reads.after_eq, hBelow.reads.names_eq]
      rfl
    · rw [hEnd, (hInside next closer outer).after_eq]
      rfl
    · rw [hEnd]
      have hNot : Expected.statement.after between ≠ .statement := by
        intro hStatement
        rw [hStatement, hBelow.reads.after_eq] at hEnd
        cases hEnd
      rw [if_neg (fun hBoth => by cases hBoth.2), if_neg (fun hBoth => hNot hBoth.2)]
      rfl
  · rw [boundNames?_eq_none_of_place (by rw [hAfter, hMiddle, Place.after_comment hStar]; rfl),
      boundNames?_eq_none_of_place (by rw [hMiddle]; rfl)]
    rfl
  · rw [boundNames?_eq_none_of_place (by rw [hAfter, hMiddle, Place.after_refused]; rfl),
      boundNames?_eq_none_of_place (by rw [hMiddle]; rfl)]
    rfl

example : boundNames? "import \x7b A, B \x7d from \"a\\\"\"; // \x7b C\nexport class D \x7b /* \x7d */ m() \x7b\x7d \x7d" =
    some ["A", "B", "D"] := by decide +kernel

end ClientRegistry.Code
