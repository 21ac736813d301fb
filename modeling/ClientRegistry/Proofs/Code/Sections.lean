import ClientRegistry.Proofs.Code.Layout
import ClientRegistry.Proofs.Text.Lines

/-!
# Sections of a source file

Fragments at the outermost level are printed one after the other, each as it is printed alone. So a source
file is the header, the imports and the declarations it has, each printed on its own, with a blank line
between them.
-/

set_option autoImplicit false

namespace ClientRegistry.Code

/-! ### Printing at the outermost level -/

theorem render_append (fs gs : List Fragment) : render (fs ++ gs) = render fs ++ render gs := by
  rw [render_eq, render_eq, render_eq, Fragment.linesOfAll_append, Indent.layout_append]

theorem render_flatMap {α : Type} (l : List α) (fragmentsOf : α → List Fragment) :
    render (l.flatMap fragmentsOf) = String.join (l.map fun a => render (fragmentsOf a)) := by
  induction l with
  | nil => rfl
  | cons a rest ih => rw [List.flatMap_cons, render_append, ih, List.map_cons, String.join_cons]

theorem render_intercalate (parts : List (List Fragment)) :
    render ([Fragment.blank].intercalate parts) = "\n".intercalate (parts.map render) := by
  induction parts with
  | nil => rfl
  | cons first rest ih =>
    cases rest with
    | nil => simp
    | cons second rest =>
      have hBlank : render [.blank] = "\n" := rfl
      rw [List.intercalate_cons_cons, render_append, render_append, ih, hBlank, List.map_cons, List.map_cons,
        List.map_cons, String.intercalate_cons_cons]

theorem linesOfAll_ne_nil {fs : List Fragment} (h : fs ≠ []) : Fragment.linesOfAll 0 fs ≠ [] := by
  obtain ⟨f, rest, rfl⟩ := List.exists_cons_of_ne_nil h
  rw [Fragment.linesOfAll]
  cases f <;> simp [Fragment.linesAt]

/-- What is printed ends with a line break. -/
theorem exists_render_eq {fs : List Fragment} (h : fs ≠ []) : ∃ before, render fs = before ++ "\n" := by
  obtain ⟨lines, last, hLines⟩ := (List.eq_nil_or_concat _).resolve_left (linesOfAll_ne_nil h)
  rw [render_eq, hLines, List.concat_eq_append, Indent.layout_append, Indent.layout_cons, Indent.layout_nil,
    String.append_empty, Indent.lineText, ← String.append_assoc]
  exact ⟨_, rfl⟩

namespace SourceFile

variable {f : SourceFile}

def parts (f : SourceFile) : List (List Fragment) :=
  f.header.toList.map (fun text => [.line text]) ++
    (if f.imports.isEmpty then [] else [f.imports.flatMap Import.fragments]) ++ f.body

/-- The texts of the parts, each as it is printed on its own. -/
def sections (f : SourceFile) : List String :=
  f.header.toList.map (fun text => render [.line text]) ++
    (if f.imports.isEmpty then [] else [String.join (f.imports.map fun i => render i.fragments)]) ++
    f.body.map render

theorem fragments_eq (f : SourceFile) : f.fragments = [Fragment.blank].intercalate f.parts := by
  obtain ⟨header, imports, body⟩ := f
  rw [fragments, headerFragments, importFragments, bodyFragments, parts]
  cases header <;> cases imports <;> cases body <;> simp [List.intercalate_cons_cons]

theorem map_render_parts (f : SourceFile) : f.parts.map render = f.sections := by
  rw [parts, sections, List.map_append, List.map_append, List.map_map]
  congr 2
  split
  · rfl
  · rw [List.map_singleton, render_flatMap]

theorem text_eq (f : SourceFile) : f.text = "\n".intercalate f.sections := by
  rw [text, fragments_eq, render_intercalate, map_render_parts]

theorem parts_ne_nil (h : ∀ node ∈ f.body, node ≠ []) : ∀ part ∈ f.parts, part ≠ [] := by
  intro part hPart
  rw [parts, List.mem_append, List.mem_append] at hPart
  rcases hPart with (hHeader | hImports) | hBody
  · obtain ⟨text, -, rfl⟩ := List.mem_map.mp hHeader
    exact List.cons_ne_nil _ _
  · split at hImports
    · cases hImports
    · rename_i hSome
      obtain ⟨first, rest, hCons⟩ := List.exists_cons_of_ne_nil (mt List.isEmpty_iff.mpr hSome)
      rw [List.mem_singleton.mp hImports, hCons, List.flatMap_cons]
      exact List.cons_ne_nil _ _
  · exact h part hBody

/-- A file is printed section by section: its sections, each printed on its own and ended by a line break, with
a blank line between them and nothing before the first or after the last one. What declarations add does not
depend on what stands before them. -/
structure Composed (f : SourceFile) : Prop where
  text_eq : f.text = "\n".intercalate f.sections
  closed : ∀ s ∈ f.sections, ∃ before, s = before ++ "\n"
  opens : ∀ first, f.sections.head? = some first → ∃ after, f.text = first ++ after
  ends : ∀ last, f.sections.getLast? = some last → ∃ before, f.text = before ++ last
  apart : ∀ earlier node later, f.body = earlier ++ node :: later →
    f.text = { f with body := earlier ++ [node] }.text ++ String.join (later.map fun other => "\n" ++ render other)

theorem composed (h : ∀ node ∈ f.body, node ≠ []) : f.Composed where
  text_eq := f.text_eq
  closed := by
    intro s hs
    rw [← map_render_parts] at hs
    obtain ⟨part, hPart, rfl⟩ := List.mem_map.mp hs
    exact exists_render_eq (parts_ne_nil h part hPart)
  opens := by
    intro first hFirst
    obtain ⟨rest, hRest⟩ := List.head?_eq_some_iff.mp hFirst
    have hSplit : f.sections = [first] ++ rest := hRest
    rw [f.text_eq, hSplit, Text.intercalate_append_join (List.cons_ne_nil first []), String.intercalate_singleton]
    exact ⟨_, rfl⟩
  ends := by
    intro last hLast
    obtain ⟨init, hInit⟩ := List.getLast?_eq_some_iff.mp hLast
    rw [f.text_eq, hInit]
    by_cases hEmpty : init = []
    · exact ⟨"", by rw [hEmpty, List.nil_append, String.intercalate_singleton, String.empty_append]⟩
    · rw [String.intercalate_append_of_ne_nil hEmpty (List.cons_ne_nil last []), String.intercalate_singleton]
      exact ⟨_, rfl⟩
  apart := by
    intro earlier node later hBody
    have hSections : f.sections = { f with body := earlier ++ [node] }.sections ++ later.map render := by
      simp [sections, hBody]
    have hSome : { f with body := earlier ++ [node] }.sections ≠ [] := by simp [sections]
    rw [f.text_eq, SourceFile.text_eq { f with body := earlier ++ [node] }, hSections,
      Text.intercalate_append_join hSome, List.map_map]
    rfl

def greeting : SourceFile where
  header := some "// greeting"
  imports := [⟨"./a", ["A", "B"]⟩, ⟨"./b", []⟩]
  body := [[.braced "function greet() \x7b" [.block "if (late)" [.line "return;"] none], .blank], [.line "greet();"]]

theorem composed_greeting : greeting.body.map List.length = [2, 1] ∧ greeting.Composed ∧
    greeting.text = "// greeting\n\nimport \x7b A, B \x7d from \"./a\";\nimport \"./b\";\n\n" ++
      "function greet() \x7b\n  if (late)\n    return;\n\x7d\n\n\ngreet();\n" :=
  ⟨rfl, composed (by simp [greeting]), by decide +kernel⟩

end SourceFile

end ClientRegistry.Code
