import ClientRegistry.Proofs.Code.Layout

/-!
# Indentation

A builder puts before each line of a fragment one unit for every block around the line and one for every
level of its own, and comes back to its level. So what stands in a block is what would stand outside of
it, each line that has a text one unit further in.
-/

set_option autoImplicit false

namespace ClientRegistry.Code

namespace Fragment

def sink (n : Nat) (line : Nat × String) : Nat × String := (n + line.1, line.2)

mutual

theorem linesAt_add (n depth : Nat) (f : Fragment) : f.linesAt (n + depth) = (f.linesAt depth).map (sink n) := by
  cases f with
  | line s => rfl
  | blank => rfl
  | block header body close =>
    rw [linesAt, linesAt, Nat.add_assoc, linesOfAll_add n (depth + 1) body]
    simp [sink]

theorem linesOfAll_add (n depth : Nat) (fs : List Fragment) :
    linesOfAll (n + depth) fs = (linesOfAll depth fs).map (sink n) := by
  cases fs with
  | nil => rfl
  | cons f rest => rw [linesOfAll, linesOfAll, List.map_append, linesAt_add n depth f, linesOfAll_add n depth rest]

end

end Fragment

namespace Indent

/-- A printed line one unit further in; a line break alone stays where it is. -/
def shift (i : Indent) (printed : String) : String := if printed = "\n" then printed else i.unit ++ printed

theorem blanks_succ (i : Indent) (level : Nat) : i.blanks (level + 1) = i.unit ++ i.blanks level := by
  rw [blanks, List.replicate_succ, String.join_cons]
  rfl

theorem shift_lineText (i : Indent) (depth : Nat) (text : String) :
    i.shift (i.lineText (depth, text)) = i.lineText (depth + 1, text) := by
  by_cases hNone : text = ""
  · rw [hNone]
    rfl
  · have hLine (depth : Nat) : i.lineText (depth, text) = i.blanks depth ++ text ++ "\n" := by
      rw [lineText, if_neg hNone]
    have hText : i.blanks depth ++ text ++ "\n" ≠ "\n" := by
      intro hBreak
      simp [hNone] at hBreak
    rw [hLine, hLine, shift, if_neg hText, blanks_succ]
    simp only [String.append_assoc]

end Indent

namespace Builder

def printed (b : Builder) (line : Nat × String) : String :=
  if line.2 = "" then "\n"
  else String.join (List.replicate (b.level + line.1) b.indent.unit) ++ line.2 ++ "\n"

theorem printed_eq (b : Builder) (line : Nat × String) :
    b.printed line = b.indent.lineText (Fragment.sink b.level line) := by
  by_cases hNone : line.2 = "" <;> simp [printed, Indent.lineText, Indent.blanks, Fragment.sink, hNone]

theorem printed_sink (b : Builder) (line : Nat × String) :
    b.printed (Fragment.sink 1 line) = b.indent.shift (b.printed line) := by
  obtain ⟨depth, text⟩ := line
  have hDepth : Fragment.sink b.level (Fragment.sink 1 (depth, text)) = (b.level + depth + 1, text) := by
    rw [Fragment.sink, Fragment.sink, Nat.add_comm 1 depth, Nat.add_assoc]
  rw [printed_eq, printed_eq, hDepth, ← Indent.shift_lineText]
  rfl

theorem layout_sink (b : Builder) (lines : List (Nat × String)) :
    b.indent.layout (lines.map (Fragment.sink b.level)) = String.join (lines.map b.printed) := by
  have hLine : b.indent.lineText ∘ Fragment.sink b.level = b.printed := funext fun line => (b.printed_eq line).symm
  rw [Indent.layout, List.map_map, hLine]

/-- One level further in the same lines are printed, each shifted by one unit. -/
theorem layout_inside (b : Builder) (body : List Fragment) :
    b.indent.layout (Fragment.linesOfAll (b.level + 1) body) =
      String.join (((Fragment.linesOfAll 0 body).map b.printed).map b.indent.shift) := by
  have hLines : Fragment.linesOfAll (b.level + 1) body =
      ((Fragment.linesOfAll 0 body).map (Fragment.sink 1)).map (Fragment.sink b.level) := by
    rw [← Fragment.linesOfAll_add, ← Fragment.linesOfAll_add]
  rw [hLines, layout_sink, List.map_map, List.map_map]
  exact congrArg String.join (List.map_congr_left fun line _ => b.printed_sink line)

/-- Fragments are printed line by line in their order, each line as far in as there are blocks around it, and
the builder comes back to its level. In a block they are printed as outside of it, one unit further in. -/
structure PrintsByDepth (b : Builder) : Prop where
  one : ∀ f, b.fragment f = { b with text := b.text ++ String.join ((f.linesAt 0).map b.printed) }
  all : ∀ fs, b.fragments fs = { b with text := b.text ++ String.join ((Fragment.linesOfAll 0 fs).map b.printed) }
  inside : ∀ header body close, (b.fragment (.block header body close)).text =
    b.text ++ b.printed (0, header) ++
      String.join (((Fragment.linesOfAll 0 body).map b.printed).map b.indent.shift) ++
      String.join (close.toList.map fun text => b.printed (0, text))

theorem printsByDepth (b : Builder) : b.PrintsByDepth where
  one f := by
    have hLines : f.linesAt b.level = (f.linesAt 0).map (Fragment.sink b.level) := f.linesAt_add b.level 0
    rw [fragment_eq, hLines, layout_sink]
  all fs := by
    have hLines : Fragment.linesOfAll b.level fs = (Fragment.linesOfAll 0 fs).map (Fragment.sink b.level) :=
      Fragment.linesOfAll_add b.level 0 fs
    rw [fragments_eq, hLines, layout_sink]
  inside header body close := by
    cases close <;>
      simp [fragment_eq, Fragment.linesAt, layout_inside, printed_eq, Fragment.sink, String.append_assoc]

end Builder

end ClientRegistry.Code
