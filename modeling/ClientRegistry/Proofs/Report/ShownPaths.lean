import Mathlib.Data.List.Forall2
import ClientRegistry.Proofs.Path.ImportedPlace
import ClientRegistry.Report.Generation

/-!
# Paths in the report of a generation

The report shows a path by what comes after the root in it. It does so with the template, the registry and
each skipped file, but names the first provider of a service by its whole path, as the reason of the skipped
file does.
-/

set_option autoImplicit false

namespace ClientRegistry

/-! ### Paths seen from a root -/

namespace Path

variable {p root : Path}

structure LiesBelow (p root : Path) : Prop where
  startsWith : p.startsWith root = true
  sameStart : p.isAbsolute = root.isAbsolute

/-- A text that shows `p` relative to the root: a relative path with what comes after the root in `p`. -/
structure ShownFrom (root p : Path) (text : String) : Prop where
  relative : (Path.mk text).isAbsolute = false
  rest : p.components = root.components ++ (Path.mk text).components

theorem isAbsolute_of_components {rest : Path} (h : p.components = root.components ++ rest.components) :
    p.isAbsolute = (root.isAbsolute || rest.isAbsolute) := by
  rw [Bool.eq_iff_iff, Bool.or_eq_true, ← root_mem_components_iff, ← root_mem_components_iff,
    ← root_mem_components_iff, h, List.mem_append]

theorem ShownFrom.liesBelow {text : String} (h : root.ShownFrom p text) : p.LiesBelow root where
  startsWith := by
    rw [startsWith_iff, h.rest]
    exact List.prefix_append _ _
  sameStart := by rw [isAbsolute_of_components h.rest, h.relative, Bool.or_false]

theorem LiesBelow.shownFrom (h : p.LiesBelow root) : root.ShownFrom p (Report.shownPath root p) := by
  obtain ⟨rest, hRest, hComponents⟩ := components_relativeTo? h.startsWith
  obtain ⟨after, hAfter⟩ := startsWith_iff.mp h.startsWith
  rw [← hAfter, List.drop_left] at hComponents
  have hShown : Path.mk (Report.shownPath root p) = rest := by rw [Report.shownPath, hRest, Option.getD_some]
  subst hComponents
  constructor
  · rw [hShown]
    cases hAbsolute : rest.isAbsolute with
    | false => rfl
    | true =>
      have hNone := components_eq_nil_of_root_mem hAfter.symm (root_mem_components_iff.mpr hAbsolute)
      have hStart := h.sameStart
      rw [isAbsolute_of_components hAfter.symm, hAbsolute, Bool.or_true, eq_comm, ← root_mem_components_iff,
        hNone] at hStart
      cases hStart
  · rw [hShown, hAfter]

theorem shownFrom_text_iff (h : p.LiesBelow root) : root.ShownFrom p p.text ↔ root.components = [] := by
  constructor
  · intro hShown
    exact List.self_eq_append_left.mp hShown.rest
  · intro hNone
    refine ⟨?_, by rw [hNone, List.nil_append]⟩
    have hRoot : .root ∉ root.components := by simp [hNone]
    rw [root_mem_components_iff, Bool.not_eq_true] at hRoot
    exact h.sameStart.trans hRoot

/-! ### Paths before a blank -/

/-- A segment with a blank in it is a name. -/
theorem isName_of_blank {segment : List Char} (hBlank : ' ' ∈ segment) (hSlash : '/' ∉ segment) :
    IsName (String.ofList segment) := by
  have hOther (text : String) (hText : ' ' ∉ text.toList) : String.ofList segment ≠ text := by
    rintro rfl
    exact hText (by simpa using hBlank)
  exact ⟨hOther "" (by decide), hOther "." (by decide), hOther ".." (by decide), by simpa using hSlash⟩

/-- A blank and what follows it change the steps of a path. -/
theorem steps_append_blank_ne (s w : List Char) :
    steps ⟨String.ofList (s ++ ' ' :: w)⟩ ≠ steps ⟨String.ofList s⟩ := by
  obtain ⟨init, last, first, rest, hFirst, hSecond, hBoth⟩ := Text.exists_splitOn_append '/' s (' ' :: w)
  have hBlank : ' ' ∈ first := by
    obtain ⟨piece, pieces, hPieces⟩ := List.exists_cons_of_ne_nil (List.splitOn_ne_nil '/' w)
    rw [List.splitOn_cons_eq_if_modifyHead, if_neg (by decide), hPieces, List.modifyHead_cons] at hSecond
    rw [← (List.cons.inj hSecond).1]
    exact List.mem_cons_self
  have hPiece : last ++ first ∈ (s ++ ' ' :: w).splitOn '/' := by simp [hBoth]
  have hSlash := Text.not_mem_of_mem_splitOn hPiece
  have hName := isName_of_blank (List.mem_append_right last hBlank) hSlash
  intro hSame
  rw [steps, steps, segments, segments, String.toList_ofList, String.toList_ofList, hBoth, hFirst, List.map_append,
    List.map_append, List.filterMap_append, List.filterMap_append, List.append_cancel_left_eq, List.map_cons,
    List.filterMap_cons_some hName.stepOf?_eq, List.map_singleton] at hSame
  cases hStep : stepOf? (String.ofList last) with
  | none => simp [hStep] at hSame
  | some c =>
    rw [List.filterMap_cons_some hStep] at hSame
    have hLast : c = .name (String.ofList (last ++ first)) := (List.cons.inj hSame).1.symm
    rcases stepOf?_eq_some hStep with rfl | ⟨rfl, -⟩
    · cases hLast
    · have hEmpty : first = [] := by simpa using String.ofList_inj.mp (Component.name.inj hLast)
      rw [hEmpty] at hBlank
      cases hBlank

theorem eq_nil_of_steps_append {s w u v : List Char}
    (hSame : steps ⟨String.ofList (s ++ w)⟩ = steps ⟨String.ofList s⟩) (h : ' ' :: u = w ++ ' ' :: v) : w = [] := by
  cases w with
  | nil => rfl
  | cons c w =>
    obtain rfl : ' ' = c := (List.cons.inj h).1
    exact absurd hSame (steps_append_blank_ne s w)

/-- Two spellings of a relative path that stand before blanks in one text are the same. -/
theorem text_eq_of_append_blank {s t u v : String} (hs : (Path.mk s).isAbsolute = false)
    (ht : (Path.mk t).isAbsolute = false) (hSame : (Path.mk s).components = (Path.mk t).components)
    (h : s ++ " " ++ u = t ++ " " ++ v) : s = t := by
  have hSteps : (Path.mk s).steps = (Path.mk t).steps := by
    rw [← filter_components_of_relative hs, hSame, filter_components_of_relative ht]
  have hChars : s.toList ++ ' ' :: u.toList = t.toList ++ ' ' :: v.toList := by simpa using congrArg String.toList h
  rw [← String.ofList_toList (s := s), ← String.ofList_toList (s := t)] at hSteps
  rw [← String.toList_inj]
  rcases List.append_eq_append_iff.mp hChars with ⟨w, hLonger, hRest⟩ | ⟨w, hLonger, hRest⟩
  · rw [hLonger] at hSteps ⊢
    rw [eq_nil_of_steps_append hSteps.symm hRest, List.append_nil]
  · rw [hLonger] at hSteps ⊢
    rw [eq_nil_of_steps_append hSteps hRest, List.append_nil]

end Path

/-! ### Warnings -/

namespace Service

def SkipReason.first? : SkipReason → Option Path
  | duplicateInstance _ first => some first
  | _ => none

def SkipReason.SaidFrom (root : Path) (reason : SkipReason) (words : String) : Prop :=
  match reason with
  | duplicateInstance key first => ∃ shown, root.ShownFrom first shown ∧
      words = "defines '" ++ key ++ "' which is already provided by " ++ shown
  | reason => words = reason.message

def Skipped.WarnedFrom (root : Path) (s : Skipped) (warning : String) : Prop :=
  ∃ shown words, root.ShownFrom s.path shown ∧ s.reason.SaidFrom root words ∧ warning = shown ++ " " ++ words

theorem saidFrom_duplicateInstance_iff {root first : Path} {key words : String} :
    (SkipReason.duplicateInstance key first).SaidFrom root words ↔ ∃ shown, root.ShownFrom first shown ∧
      words = "defines '" ++ key ++ "' which is already provided by " ++ shown := Iff.rfl

theorem saidFrom_message_iff (root : Path) (reason : SkipReason) : reason.SaidFrom root reason.message ↔
    ∀ first ∈ reason.first?, root.ShownFrom first first.text := by
  cases reason with
  | duplicateInstance key first =>
    rw [saidFrom_duplicateInstance_iff]
    constructor
    · rintro ⟨shown, hShown, hWords⟩ p hp
      obtain rfl : first = p := Option.some.inj hp
      have hText : first.text = shown := (String.append_right_inj _).mp hWords
      rwa [hText]
    · intro h
      exact ⟨first.text, h first rfl, rfl⟩
  | _ => simp [SkipReason.SaidFrom, SkipReason.first?]

theorem warnedFrom_iff (root : Path) (s : Skipped) :
    s.WarnedFrom root (Report.shownPath root s.path ++ " " ++ s.reason.message) ↔
      s.path.LiesBelow root ∧ ∀ first ∈ s.reason.first?, root.ShownFrom first first.text := by
  rw [← saidFrom_message_iff]
  constructor
  · rintro ⟨shown, words, hPath, hReason, hText⟩
    have hBelow := hPath.liesBelow
    have hShown := hBelow.shownFrom
    have hSame : (Path.mk (Report.shownPath root s.path)).components = (Path.mk shown).components :=
      List.append_cancel_left (hShown.rest.symm.trans hPath.rest)
    obtain rfl := Path.text_eq_of_append_blank hShown.relative hPath.relative hSame hText
    have hWords := (String.append_right_inj _).mp hText
    exact ⟨hBelow, hWords ▸ hReason⟩
  · rintro ⟨hBelow, hReason⟩
    exact ⟨_, _, hBelow.shownFrom, hReason, rfl⟩

end Service

/-! ### The report -/

structure Generation.LiesBelow (g : Generation) (root : Path) : Prop where
  template : ∀ p, g.template = .file p → p.LiesBelow root
  skipped : ∀ s ∈ g.skipped, s.path.LiesBelow root
  first : ∀ s ∈ g.skipped, ∀ p ∈ s.reason.first?, p.LiesBelow root
  clients : g.clients.LiesBelow root

namespace Report.OfGeneration

/-- A report of a generation that shows the paths of all files from the root, with one warning for each skipped
file in their order. -/
structure ShowsFrom (root : Path) (g : Generation) (r : OfGeneration) : Prop where
  file : ∀ p, g.template = .file p → root.ShownFrom p r.template
  default : g.template = .default → r.template = "default template"
  warnings : List.Forall₂ (Service.Skipped.WarnedFrom root) g.skipped r.warnings
  clients : root.ShownFrom g.clients r.clients

theorem forall₂_warnings_iff (root : Path) (g : Generation) :
    List.Forall₂ (Service.Skipped.WarnedFrom root) g.skipped (make root g).warnings ↔
      ∀ s ∈ g.skipped, s.path.LiesBelow root ∧ ∀ first ∈ s.reason.first?, root.ShownFrom first first.text := by
  rw [make, List.forall₂_map_right_iff, List.forall₂_same]
  exact forall₂_congr fun s _ => Service.warnedFrom_iff root s

/-- The report shows all paths from the root just where they lie below it and no skipped file names a first
provider. -/
theorem showsFrom_make_iff (root : Path) (g : Generation) : (make root g).ShowsFrom root g ↔
    g.LiesBelow root ∧ (root.components = [] ∨ ∀ s ∈ g.skipped, s.reason.first? = none) := by
  constructor
  · rintro ⟨hFile, -, hWarnings, hClients⟩
    have hSkipped := (forall₂_warnings_iff root g).mp hWarnings
    constructor
    · exact ⟨fun p hp => (hFile p hp).liesBelow, fun s hs => (hSkipped s hs).1,
        fun s hs first hFirst => ((hSkipped s hs).2 first hFirst).liesBelow, hClients.liesBelow⟩
    · by_cases hRoot : root.components = []
      · exact .inl hRoot
      · refine .inr fun s hs => ?_
        by_contra hSome
        obtain ⟨first, hFirst⟩ := Option.ne_none_iff_exists'.mp hSome
        have hShown := (hSkipped s hs).2 first hFirst
        exact hRoot ((Path.shownFrom_text_iff hShown.liesBelow).mp hShown)
  · rintro ⟨hBelow, hFirst⟩
    refine ⟨fun p hp => ?_, fun hDefault => ?_, (forall₂_warnings_iff root g).mpr fun s hs => ?_,
      hBelow.clients.shownFrom⟩
    · rw [make, hp]
      exact (hBelow.template p hp).shownFrom
    · rw [make, hDefault]
      rfl
    · refine ⟨hBelow.skipped s hs, fun first hMem => ?_⟩
      rcases hFirst with hRoot | hNone
      · exact (Path.shownFrom_text_iff (hBelow.first s hs first hMem)).mpr hRoot
      · rw [hNone s hs] at hMem
        cases hMem

def twinGeneration : Generation where
  template := .file ⟨"/app/buf.gen.yaml"⟩
  services := [.ofBaseName "Foo" "./a_pb"]
  skipped := [⟨⟨"/app/gen/b_pb.ts"⟩, .duplicateInstance "foo" ⟨"/app/gen/a_pb.ts"⟩⟩]
  clients := ⟨"/app/gen/clients.ts"⟩

/-- The first module of the service is shown by its whole path. -/
theorem not_showsFrom_make_twin : twinGeneration.LiesBelow "/app" ∧
    ¬ (make "/app" twinGeneration).ShowsFrom "/app" twinGeneration := by
  have hFirst : (Path.mk "/app/gen/a_pb.ts").LiesBelow "/app" := ⟨by decide +kernel, by decide⟩
  constructor
  · refine ⟨?_, ?_, ?_, ⟨by decide +kernel, by decide⟩⟩
    · rintro p ⟨⟩
      exact ⟨by decide +kernel, by decide⟩
    · simp only [twinGeneration, List.forall_mem_singleton]
      exact ⟨by decide +kernel, by decide⟩
    · simpa [twinGeneration, Service.SkipReason.first?] using hFirst
  · intro hShows
    have hSkipped := (forall₂_warnings_iff _ _).mp hShows.warnings _ List.mem_cons_self
    have hNone := (Path.shownFrom_text_iff hFirst).mp (hSkipped.2 _ rfl)
    exact absurd hNone (by decide +kernel)

end Report.OfGeneration

end ClientRegistry
