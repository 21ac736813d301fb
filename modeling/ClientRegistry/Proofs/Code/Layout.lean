import ClientRegistry.Code.SourceFile

/-!
# The lines of a text

The text of fragments is that of their lines, each indented by the number of blocks it stands in and
ended by a line break. A builder adds the lines at its own level, to which it comes back.
-/

set_option autoImplicit false

namespace ClientRegistry.Code

namespace Indent

def lineText (i : Indent) (line : Nat × String) : String :=
  (if line.2 = "" then "" else i.blanks line.1 ++ line.2) ++ "\n"

theorem lineText_zero (i : Indent) (text : String) : i.lineText (0, text) = text ++ "\n" := by
  by_cases hNone : text = ""
  · rw [hNone]
    rfl
  · rw [lineText, if_neg hNone]
    exact congrArg (· ++ "\n") String.empty_append

def layout (i : Indent) (lines : List (Nat × String)) : String := String.join (lines.map i.lineText)

@[simp] theorem layout_nil (i : Indent) : i.layout [] = "" := rfl

@[simp] theorem layout_cons (i : Indent) (line : Nat × String) (lines : List (Nat × String)) :
    i.layout (line :: lines) = i.lineText line ++ i.layout lines := by
  rw [layout, List.map_cons, String.join_cons]
  rfl

@[simp] theorem layout_append (i : Indent) (first second : List (Nat × String)) :
    i.layout (first ++ second) = i.layout first ++ i.layout second := by
  rw [layout, List.map_append, String.join_append]
  rfl

end Indent

namespace Builder

theorem line_eq (b : Builder) (s : String) :
    b.line s = { b with text := b.text ++ b.indent.lineText (b.level, s) } := by
  by_cases hEmpty : s = "" <;> simp [line, Indent.lineText, hEmpty, String.append_assoc]

theorem blank_eq (b : Builder) : b.blank = { b with text := b.text ++ b.indent.lineText (b.level, "") } := by
  simp [blank, Indent.lineText]

mutual

theorem fragment_eq (b : Builder) (f : Fragment) :
    b.fragment f = { b with text := b.text ++ b.indent.layout (f.linesAt b.level) } := by
  cases f with
  | line s => simp [fragment, Fragment.linesAt, line_eq]
  | blank => simp [fragment, Fragment.linesAt, blank_eq]
  | block header body close =>
    cases close with
    | none =>
      simp [fragment, Fragment.linesAt, line_eq, deeper, shallower, fragments_eq _ body, String.append_assoc]
    | some s =>
      simp [fragment, Fragment.linesAt, line_eq, deeper, shallower, fragments_eq _ body, String.append_assoc]

theorem fragments_eq (b : Builder) (fs : List Fragment) :
    b.fragments fs = { b with text := b.text ++ b.indent.layout (Fragment.linesOfAll b.level fs) } := by
  cases fs with
  | nil => simp [fragments, Fragment.linesOfAll]
  | cons f rest =>
    simp [fragments, Fragment.linesOfAll, fragment_eq b f, fragments_eq _ rest, String.append_assoc]

end

end Builder

/-- A text is the layout of the lines of its fragments. -/
theorem render_eq (fs : List Fragment) : render fs = Indent.two.layout (Fragment.linesOfAll 0 fs) := by
  simp [render, Builder.fragments_eq, Builder.start]

namespace Fragment

theorem linesOfAll_append (depth : Nat) (fs gs : List Fragment) :
    linesOfAll depth (fs ++ gs) = linesOfAll depth fs ++ linesOfAll depth gs := by
  induction fs with
  | nil => rfl
  | cons f rest ih => rw [List.cons_append, linesOfAll, linesOfAll, ih, List.append_assoc]

theorem linesOfAll_flatMap {α : Type} (depth : Nat) (l : List α) (fragmentsOf : α → List Fragment) :
    linesOfAll depth (l.flatMap fragmentsOf) = l.flatMap fun a => linesOfAll depth (fragmentsOf a) := by
  induction l with
  | nil => rfl
  | cons a rest ih => rw [List.flatMap_cons, List.flatMap_cons, linesOfAll_append, ih]

theorem linesOfAll_map_line (depth : Nat) (texts : List String) :
    linesOfAll depth (texts.map .line) = texts.map fun text => (depth, text) := by
  induction texts with
  | nil => rfl
  | cons text rest ih => rw [List.map_cons, List.map_cons, linesOfAll, linesAt, ih]; rfl

end Fragment

end ClientRegistry.Code
