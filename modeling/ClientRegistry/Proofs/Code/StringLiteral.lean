import ClientRegistry.Text.Digits

/-!
# String literals

A text between double quotes stands for a sequence of 16-bit units. A character that is raw stands for its
own units, and an escape for those that its form gives. With its backslash an escape has more units than it
stands for, so that only a literal without escapes stands for the characters it is written with.
-/

set_option autoImplicit false

namespace ClientRegistry.Code

def unitsOf (n : Nat) : List Nat :=
  if n < 0x10000 then [n] else [0xD800 + (n - 0x10000) / 0x400, 0xDC00 + (n - 0x10000) % 0x400]

def units (s : List Char) : List Nat := s.flatMap fun c => unitsOf c.toNat

/-! ### Reading -/

/-- The characters that stand for themselves in a literal. The line and paragraph separators are among them,
though they end a line elsewhere. -/
def isRaw (c : Char) : Bool := c ∉ ['"', '\\', '\n', '\r']

def controlUnit? : Char → Option Nat
  | 'b' => some 8
  | 't' => some 9
  | 'n' => some 10
  | 'v' => some 11
  | 'f' => some 12
  | 'r' => some 13
  | _ => none

def hexValue? (digits : List Char) : Option Nat :=
  (digits.mapM Text.hexDigit?).map fun values => values.foldl (fun n d => n * 16 + d) 0

def readUnit? (digits : Nat) (s : List Char) : Option (List Nat × List Char) :=
  if s.length < digits then none else (hexValue? (s.take digits)).map fun n => ([n], s.drop digits)

def readCodePoint? (s : List Char) : Option (List Nat × List Char) :=
  match s.takeWhile (· ≠ '\x7d'), s.dropWhile (· ≠ '\x7d') with
  | d :: ds, _ :: after => ((hexValue? (d :: ds)).filter (· < 0x110000)).map fun n => (unitsOf n, after)
  | _, _ => none

/-- What an escape stands for, from after its backslash. Digits are refused, but for a zero that stands
alone; the end of a line stands for nothing, and a character without a meaning of its own for itself. -/
def readEscape? : List Char → Option (List Nat × List Char)
  | 'x' :: rest => readUnit? 2 rest
  | 'u' :: '\x7b' :: rest => readCodePoint? rest
  | 'u' :: rest => readUnit? 4 rest
  | '0' :: rest => if rest.head?.any Char.isDigit then none else some ([0], rest)
  | '\r' :: '\n' :: rest => some ([], rest)
  | c :: rest =>
    if c.isDigit then none
    else if c ∈ ['\n', '\r', '\u2028', '\u2029'] then some ([], rest)
    else some ((controlUnit? c).elim (unitsOf c.toNat) ([·]), rest)
  | [] => none

/-! ### The units an escape takes -/

theorem length_unitsOf (n : Nat) : 0 < (unitsOf n).length ∧ (unitsOf n).length ≤ 2 := by
  unfold unitsOf
  split <;> simp

@[simp] theorem units_nil : units [] = [] := rfl

@[simp] theorem units_cons (c : Char) (s : List Char) : units (c :: s) = unitsOf c.toNat ++ units s := rfl

@[simp] theorem units_append (s t : List Char) : units (s ++ t) = units s ++ units t := List.flatMap_append

theorem length_units_cons (c : Char) (s : List Char) : (units s).length < (units (c :: s)).length := by
  rw [units_cons, List.length_append]
  exact Nat.lt_add_of_pos_left (length_unitsOf c.toNat).1

variable {s after : List Char} {us : List Nat}

theorem length_of_readUnit? {digits : Nat} (h : readUnit? digits s = some (us, after)) :
    us.length + (units after).length ≤ 1 + (units s).length := by
  unfold readUnit? at h
  split at h
  · cases h
  · obtain ⟨n, -, hRead⟩ := Option.map_eq_some_iff.mp h
    cases hRead
    have hParts := congrArg (fun s => (units s).length) (List.take_append_drop digits s)
    simp only [units_append, List.length_append] at hParts
    simp only [List.length_singleton]
    omega

theorem length_of_readCodePoint? (h : readCodePoint? s = some (us, after)) :
    us.length + (units after).length ≤ (units s).length := by
  have hParts : s.takeWhile (· ≠ '\x7d') ++ s.dropWhile (· ≠ '\x7d') = s := List.takeWhile_append_dropWhile
  unfold readCodePoint? at h
  split at h
  case h_1 d ds brace tail hDigits hTail =>
    obtain ⟨n, -, hRead⟩ := Option.map_eq_some_iff.mp h
    cases hRead
    rw [hDigits, hTail] at hParts
    have hCodePoint := (length_unitsOf n).2
    have hDigit := (length_unitsOf d.toNat).1
    have hBrace := (length_unitsOf brace.toNat).1
    rw [← hParts]
    simp only [units_append, units_cons, List.length_append]
    omega
  case h_2 => cases h

theorem length_of_readEscape? (h : readEscape? s = some (us, after)) :
    us.length + (units after).length ≤ (units s).length := by
  unfold readEscape? at h
  split at h
  case h_1 rest =>
    have hUnit := length_of_readUnit? h
    have hMark := length_units_cons 'x' rest
    omega
  case h_2 rest =>
    have hCodePoint := length_of_readCodePoint? h
    have hBrace := length_units_cons '\x7b' rest
    have hMark := length_units_cons 'u' ('\x7b' :: rest)
    omega
  case h_3 _ rest _ =>
    have hUnit := length_of_readUnit? h
    have hMark := length_units_cons 'u' rest
    omega
  case h_4 rest =>
    have hZero := length_units_cons '0' rest
    split at h
    · cases h
    · cases h
      simp only [List.length_singleton]
      omega
  case h_5 rest =>
    have hSecond := length_units_cons '\n' rest
    have hFirst := length_units_cons '\r' ('\n' :: rest)
    cases h
    simp only [List.length_nil]
    omega
  case h_6 c rest _ _ _ _ _ =>
    have hChar := length_units_cons c rest
    split at h
    · cases h
    split at h
    · cases h
      simp only [List.length_nil]
      omega
    · cases h
      cases controlUnit? c with
      | none => simp
      | some n =>
        simp only [Option.elim_some, List.length_singleton]
        omega
  case h_7 => cases h

/-! ### Literals -/

/-- What a literal stands for, from after its opening quote, and what comes after its closing one. -/
def readString? : List Char → Option (List Nat × List Char)
  | [] => none
  | c :: rest =>
    if c = '"' then some ([], rest)
    else if c = '\\' then
      match _ : readEscape? rest with
      | some (us, next) => (readString? next).map fun (vs, after) => (us ++ vs, after)
      | none => none
    else if isRaw c then (readString? rest).map fun (us, after) => (unitsOf c.toNat ++ us, after)
    else none
termination_by s => (units s).length
decreasing_by
  · have hEscape := length_of_readEscape? ‹readEscape? rest = some (us, next)›
    have hMark := length_units_cons c rest
    omega
  · exact length_units_cons c rest

theorem readString?_escape (rest : List Char) :
    readString? ('\\' :: rest) = (readEscape? rest).bind fun (us, next) =>
      (readString? next).map fun (vs, after) => (us ++ vs, after) := by
  rw [readString?, if_neg (by decide), if_pos rfl]
  split <;> simp [*]

theorem readString?_raw {c : Char} (h : isRaw c = true) (rest : List Char) :
    readString? (c :: rest) = (readString? rest).map fun (us, after) => (unitsOf c.toNat ++ us, after) := by
  have hChars : c ≠ '"' ∧ c ≠ '\\' ∧ c ≠ '\n' ∧ c ≠ '\r' := by simpa [isRaw] using h
  rw [readString?, if_neg hChars.1, if_neg hChars.2.1, if_pos h]

/-- A literal has fewer units than the text from which it is read. -/
theorem length_of_readString? (h : readString? s = some (us, after)) :
    us.length + (units after).length < (units s).length := by
  fun_induction readString? s generalizing us after with
  | case1 => cases h
  | case2 rest =>
    cases h
    rw [List.length_nil, Nat.zero_add]
    exact length_units_cons '"' rest
  | case3 rest vs next hEscape _ ih =>
    obtain ⟨⟨ws, tail⟩, hRest, hRead⟩ := Option.map_eq_some_iff.mp h
    cases hRead
    have hLength := length_of_readEscape? hEscape
    have hBody := ih hRest
    have hMark := length_units_cons '\\' rest
    rw [List.length_append]
    omega
  | case4 => cases h
  | case5 c rest _ _ _ ih =>
    obtain ⟨⟨vs, tail⟩, hRest, hRead⟩ := Option.map_eq_some_iff.mp h
    cases hRead
    have hBody := ih hRest
    rw [units_cons, List.length_append, List.length_append]
    omega
  | case6 => cases h

/-- A text that begins with an escape has more units than are read from it. -/
theorem readString?_escape_ne (rest after : List Char) :
    readString? ('\\' :: (rest ++ '"' :: after)) ≠ some (units ('\\' :: rest), after) := by
  intro hRead
  rw [readString?_escape] at hRead
  obtain ⟨⟨us, next⟩, hEscape, hMap⟩ := Option.bind_eq_some_iff.mp hRead
  obtain ⟨⟨vs, tail⟩, hRest, hPair⟩ := Option.map_eq_some_iff.mp hMap
  obtain ⟨hUnits, rfl⟩ := Prod.mk.inj hPair
  have hLength := length_of_readEscape? hEscape
  have hBody := length_of_readString? hRest
  have hTotal := congrArg List.length hUnits
  have hMark : (unitsOf '\\'.toNat).length = 1 := by decide
  have hQuote : (unitsOf '"'.toNat).length = 1 := by decide
  simp only [units_append, units_cons, List.length_append] at hLength hTotal
  omega

/-- A text between quotes stands for itself exactly when all its characters are raw. -/
theorem readString?_self_iff :
    readString? (s ++ '"' :: after) = some (units s, after) ↔ ∀ c ∈ s, isRaw c = true := by
  induction s with
  | nil =>
    rw [List.nil_append, readString?, if_pos rfl]
    simp
  | cons c rest ih =>
    rw [List.forall_mem_cons, ← ih, List.cons_append]
    by_cases hRaw : isRaw c = true
    · rw [readString?_raw hRaw, and_iff_right hRaw, units_cons, Option.map_eq_some_iff]
      constructor
      · rintro ⟨⟨us, tail⟩, hRest, hRead⟩
        obtain ⟨hUnits, rfl⟩ := Prod.mk.inj hRead
        rw [hRest, List.append_cancel_left hUnits]
      · exact fun hRest => ⟨_, hRest, rfl⟩
    · refine iff_of_false (fun hRead => ?_) fun hBoth => hRaw hBoth.1
      have hChars : c ∈ ['"', '\\', '\n', '\r'] := by
        simpa only [isRaw, decide_eq_true_eq, Decidable.not_not] using hRaw
      simp only [List.mem_cons, List.not_mem_nil, or_false] at hChars
      rcases hChars with rfl | rfl | rfl | rfl
      · rw [readString?, if_pos rfl] at hRead
        cases hRead
      · exact readString?_escape_ne rest after hRead
      · rw [readString?, if_neg (by decide), if_neg (by decide), if_neg hRaw] at hRead
        cases hRead
      · rw [readString?, if_neg (by decide), if_neg (by decide), if_neg hRaw] at hRead
        cases hRead

example : readString? "\\x41\\u\x7b1F600\x7d\\\"\";".toList = some (units "A😀\"".toList, [';']) := by cbv

end ClientRegistry.Code
