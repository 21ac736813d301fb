/-!
# Lines of a text

Pieces between separators, and the lines of a text as stretches of it. A line has no break in it, and on
both sides a break or the end of the text. Splitting a text at its breaks gives all its lines, in order.
-/

set_option autoImplicit false

namespace ClientRegistry.Text

/-! ### Pieces between separators -/

theorem intercalate_cons {α : Type} (sep first : List α) (rest : List (List α)) :
    sep.intercalate (first :: rest) = first ++ rest.flatMap (sep ++ ·) := by
  induction rest generalizing first with
  | nil => simp
  | cons second rest ih =>
    rw [List.intercalate_cons_cons, ih, List.flatMap_cons, List.append_assoc, List.append_assoc]

theorem intercalate_append {α : Type} {sep : List α} {first second : List (List α)} (h : first ≠ []) :
    sep.intercalate (first ++ second) = sep.intercalate first ++ second.flatMap (sep ++ ·) := by
  obtain ⟨head, tail, rfl⟩ := List.exists_cons_of_ne_nil h
  rw [List.cons_append, intercalate_cons, intercalate_cons, List.flatMap_append, List.append_assoc]

theorem intercalate_append_join {sep : String} {first second : List String} (h : first ≠ []) :
    sep.intercalate (first ++ second) = sep.intercalate first ++ String.join (second.map (sep ++ ·)) := by
  induction second generalizing first with
  | nil => simp
  | cons s rest ih =>
    have hOne : sep.intercalate (first ++ [s]) = sep.intercalate first ++ (sep ++ s) := by
      rw [String.intercalate_append_of_ne_nil h (List.cons_ne_nil s []), String.intercalate_singleton,
        String.append_assoc]
    rw [List.append_cons, ih (by simp), hOne, List.map_cons, String.join_cons, String.append_assoc]

/-- Where two texts meet, the last piece of the first and the first piece of the second are one piece. -/
theorem exists_splitOn_append (sep : Char) (s t : List Char) : ∃ init last first rest,
    s.splitOn sep = init ++ [last] ∧ t.splitOn sep = first :: rest ∧
      (s ++ t).splitOn sep = init ++ (last ++ first) :: rest := by
  induction s with
  | nil =>
    obtain ⟨first, rest, hSplit⟩ := List.exists_cons_of_ne_nil (List.splitOn_ne_nil sep t)
    exact ⟨[], [], first, rest, List.splitOn_nil sep, hSplit, hSplit⟩
  | cons c s ih =>
    obtain ⟨init, last, first, rest, hFirst, hSecond, hBoth⟩ := ih
    rw [List.cons_append, List.splitOn_cons_eq_if_modifyHead, List.splitOn_cons_eq_if_modifyHead, hFirst, hBoth]
    split
    · exact ⟨[] :: init, last, first, rest, rfl, hSecond, rfl⟩
    · cases init with
      | nil => exact ⟨[], c :: last, first, rest, rfl, hSecond, rfl⟩
      | cons piece init => exact ⟨(c :: piece) :: init, last, first, rest, rfl, hSecond, rfl⟩

theorem not_mem_of_mem_splitOn {sep : Char} {s piece : List Char} (h : piece ∈ s.splitOn sep) : sep ∉ piece := by
  induction s generalizing piece with
  | nil =>
    rw [List.splitOn_nil, List.mem_singleton] at h
    simp [h]
  | cons c rest ih =>
    rw [List.splitOn_cons_eq_if_modifyHead] at h
    split at h
    · rcases List.mem_cons.mp h with rfl | hRest
      · exact List.not_mem_nil
      · exact ih hRest
    · rename_i hSep
      obtain ⟨first, others, hSplit⟩ := List.exists_cons_of_ne_nil (List.splitOn_ne_nil sep rest)
      rw [hSplit, List.modifyHead_cons] at h
      rw [hSplit] at ih
      rcases List.mem_cons.mp h with rfl | hOthers
      · intro hMem
        rcases List.mem_cons.mp hMem with rfl | hFirst
        · exact hSep BEq.rfl
        · exact ih List.mem_cons_self hFirst
      · exact ih (List.mem_cons_of_mem _ hOthers)

/-! ### Lines -/

structure LineAt (s before line after : List Char) : Prop where
  text : s = before ++ line ++ after
  unbroken : '\n' ∉ line
  opens : before = [] ∨ before.getLast? = some '\n'
  closes : after = [] ∨ after.head? = some '\n'

def closed (lines : List (List Char)) : List Char := lines.flatMap (· ++ ['\n'])

@[simp] theorem closed_nil : closed [] = [] := rfl

theorem closed_cons (line : List Char) (rest : List (List Char)) :
    closed (line :: rest) = line ++ '\n' :: closed rest := by
  rw [closed, List.flatMap_cons, List.append_assoc]
  rfl

theorem closed_append (lines more : List (List Char)) : closed (lines ++ more) = closed lines ++ closed more :=
  List.flatMap_append

theorem closed_eq {lines : List (List Char)} (h : lines ≠ []) : closed lines = ['\n'].intercalate lines ++ ['\n'] := by
  induction lines with
  | nil => exact absurd rfl h
  | cons line rest ih =>
    cases rest with
    | nil => simp [closed]
    | cons second rest =>
      rw [closed_cons, ih (List.cons_ne_nil _ _), List.intercalate_cons_cons, List.append_assoc, List.append_assoc]
      rfl

theorem intercalate_lines (earlier : List (List Char)) (line : List Char) (later : List (List Char)) :
    ['\n'].intercalate (earlier ++ line :: later) = closed earlier ++ line ++ later.flatMap (['\n'] ++ ·) := by
  induction earlier with
  | nil => exact intercalate_cons _ _ _
  | cons first rest ih =>
    have hRest : rest ++ line :: later ≠ [] := by simp
    obtain ⟨second, others, hSecond⟩ := List.exists_cons_of_ne_nil hRest
    rw [List.cons_append, hSecond, List.intercalate_cons_cons, ← hSecond, ih, closed_cons]
    simp

/-- What splitting at breaks gives is a line where it stands. -/
theorem lineAt_of_splitOn {s line : List Char} {earlier later : List (List Char)}
    (h : s.splitOn '\n' = earlier ++ line :: later) :
    LineAt s (closed earlier) line (later.flatMap (['\n'] ++ ·)) where
  text := by rw [← intercalate_lines, ← h, List.intercalate_splitOn]
  unbroken := not_mem_of_mem_splitOn (h ▸ List.mem_append_right earlier List.mem_cons_self)
  opens := by
    rcases List.eq_nil_or_concat earlier with rfl | ⟨init, last, rfl⟩
    · exact .inl rfl
    · right
      rw [List.concat_eq_append, closed_append, closed_cons]
      simp
  closes := by cases later <;> simp

/-- Every line is one of what splitting at breaks gives. -/
theorem LineAt.exists_splitOn {s before line after : List Char} (h : LineAt s before line after) :
    ∃ earlier later, s.splitOn '\n' = earlier ++ line :: later ∧ before = closed earlier := by
  obtain ⟨later, hLater⟩ : ∃ later, (line ++ after).splitOn '\n' = line :: later := by
    rcases h.closes with rfl | hBreak
    · rw [List.append_nil, List.splitOn_eq_singleton h.unbroken]
      exact ⟨[], rfl⟩
    · obtain ⟨rest, rfl⟩ := List.head?_eq_some_iff.mp hBreak
      rw [List.splitOn_append_cons_self, List.splitOn_eq_singleton h.unbroken]
      exact ⟨rest.splitOn '\n', rfl⟩
  rcases h.opens with rfl | hBreak
  · refine ⟨[], later, ?_, rfl⟩
    rw [h.text, List.nil_append, hLater, List.nil_append]
  · obtain ⟨init, rfl⟩ := List.getLast?_eq_some_iff.mp hBreak
    refine ⟨init.splitOn '\n', later, ?_, ?_⟩
    · rw [h.text, List.append_assoc, List.append_assoc, List.singleton_append, List.splitOn_append_cons_self, hLater]
    · rw [closed_eq (List.splitOn_ne_nil _ _), List.intercalate_splitOn]

end ClientRegistry.Text
