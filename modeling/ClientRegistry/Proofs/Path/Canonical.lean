import ClientRegistry.Proofs.Path.Spelling

/-!
# Folding is canonical

A folded path can be written again: the root and names, or some `..` and then names. Written so it leads where
the path leads, with nothing left to fold, and two paths that both start at the root or both do not are
folded to the same just where they lead to the same place from every directory.
-/

set_option autoImplicit false

namespace ClientRegistry

namespace NormalForm

def toPath : NormalForm → Path
  | absolute names => Location.toPath names
  | relative ups names => ⟨"/".intercalate (List.replicate ups ".." ++ names)⟩

theorem components_toPath {form : NormalForm} (h : ∀ n ∈ form.names, IsName n) :
    form.toPath.components = form.components := by
  cases form with
  | absolute names => exact Location.components_toPath h
  | relative ups names =>
    have hNames : ∀ n ∈ names, IsName n := h
    have hSegment : ∀ segment ∈ List.replicate ups ".." ++ names,
        '/' ∉ segment.toList ∧ Path.isTrivial segment = false := by
      intro segment hMem
      rcases List.mem_append.mp hMem with hUp | hName
      · rw [List.eq_of_mem_replicate hUp]
        decide
      · have hIsName := hNames segment hName
        exact ⟨hIsName.no_slash, by simp [Path.isTrivial, hIsName.not_empty, hIsName.not_current]⟩
    have hUps : (List.replicate ups "..").filterMap Path.stepOf? = List.replicate ups .parent :=
      List.filterMap_replicate_of_some rfl
    calc (relative ups names).toPath.components
      _ = (Path.ofAnchored .none (List.replicate ups ".." ++ names)).components := rfl
      _ = Anchor.none.lead ++ (List.replicate ups ".." ++ names).filterMap Path.stepOf? :=
          Path.components_ofAnchored (fun segment hMem => (hSegment segment hMem).1)
            fun _ segment hFirst => (hSegment segment (List.mem_of_mem_head? hFirst)).2
      _ = List.replicate ups .parent ++ names.map .name := by
          rw [List.filterMap_append, hUps, Path.filterMap_names hNames]
          rfl

/-- Levels up and names are told apart by where they lead from the root and from a directory deep enough. -/
theorem relative_inj_of_place {ups ups' : Nat} {names names' : Location}
    (h : ∀ dir, (∀ n ∈ dir, IsName n) → (relative ups names).place dir = (relative ups' names').place dir) :
    relative ups names = relative ups' names' := by
  have hNames : names = names' := by simpa [place, Location.climb] using h [] (by simp)
  have hDeep : ∀ n ∈ List.replicate (ups + ups') "a", IsName n := by
    intro n hn
    rw [List.eq_of_mem_replicate hn]
    decide
  have hUps : ups' = ups := by simpa [place, Location.climb, hNames] using congrArg List.length (h _ hDeep)
  rw [hUps, hNames]

end NormalForm

namespace Path

def normalized (p : Path) : Path := p.normalForm.toPath

theorem components_normalized (p : Path) : p.normalized.components = p.folded := by
  rw [normalized, NormalForm.components_toPath p.isName_of_mem_names, folded_eq]

theorem normalForm_normalized (p : Path) : p.normalized.normalForm = p.normalForm := by
  rw [normalForm, components_normalized, folded_eq, NormalForm.foldl_step_components]

theorem isAbsolute_normalized (p : Path) : p.normalized.isAbsolute = p.isAbsolute := by
  rw [Bool.eq_iff_iff, ← root_mem_components_iff, components_normalized]
  cases h : p.isAbsolute with
  | true => simp [folded_of_absolute h []]
  | false =>
    obtain ⟨ups, names, hForm⟩ := exists_normalForm_of_relative h
    simp [folded_eq, hForm, NormalForm.components]

theorem locate_normalized (p : Path) (dir : Location) : p.normalized.locate dir = p.locate dir := by
  rw [locate_eq, locate_eq, normalForm_normalized]

theorem folded_eq_of_locate {p q : Path} (hAnchor : p.isAbsolute = q.isAbsolute)
    (hPlace : ∀ dir, (∀ n ∈ dir, IsName n) → p.locate dir = q.locate dir) : p.folded = q.folded := by
  cases h : p.isAbsolute with
  | true => rw [folded_of_absolute h [], folded_of_absolute (hAnchor ▸ h) [], hPlace [] (by simp)]
  | false =>
    obtain ⟨ups, names, hForm⟩ := exists_normalForm_of_relative h
    obtain ⟨ups', names', hForm'⟩ := exists_normalForm_of_relative (hAnchor ▸ h)
    rw [folded_eq_iff, hForm, hForm']
    refine NormalForm.relative_inj_of_place fun dir hDir => ?_
    rw [← hForm, ← hForm', ← locate_eq, ← locate_eq, hPlace dir hDir]

/-- A path is folded to a form that says where it leads from every directory and nothing else. -/
structure CanonicallyFolded (p : Path) : Prop where
  written : p.normalized.components = p.folded
  absolute : p.isAbsolute = true → p.normalized.isAbsolute = true ∧
    ∃ names : Location, (∀ n ∈ names, IsName n) ∧ p.folded = .root :: names.map .name
  relative : p.isAbsolute = false → p.normalized.isAbsolute = false ∧
    ∃ (ups : Nat) (names : Location), (∀ n ∈ names, IsName n) ∧
      p.folded = List.replicate ups .parent ++ names.map .name
  fixed : Component.fold p.folded = p.folded ∧ p.normalized.normalized = p.normalized
  place : ∀ dir, p.normalized.locate dir = p.locate dir
  unique : ∀ q : Path, p.folded = q.folded ↔
    p.isAbsolute = q.isAbsolute ∧ ∀ dir, (∀ n ∈ dir, IsName n) → p.locate dir = q.locate dir

theorem canonicallyFolded (p : Path) : p.CanonicallyFolded where
  written := p.components_normalized
  absolute h := by
    refine ⟨p.isAbsolute_normalized.trans h, p.locate [], ?_, folded_of_absolute h []⟩
    exact isName_of_mem_locate fun n hn => absurd hn List.not_mem_nil
  relative h := by
    obtain ⟨ups, names, hForm⟩ := exists_normalForm_of_relative h
    have hNames := p.isName_of_mem_names
    rw [hForm] at hNames
    refine ⟨p.isAbsolute_normalized.trans h, ups, names, hNames, ?_⟩
    rw [folded_eq, hForm, NormalForm.components]
  fixed := by
    have hFolded : p.normalized.folded = p.folded := folded_eq_iff.mpr p.normalForm_normalized
    rw [folded, components_normalized] at hFolded
    refine ⟨hFolded, ?_⟩
    rw [normalized, normalForm_normalized, normalized]
  place := p.locate_normalized
  unique q := by
    constructor
    · intro h
      have hForm := folded_eq_iff.mp h
      constructor
      · rw [← isAbsolute_normalized, ← isAbsolute_normalized q, normalized, normalized, hForm]
      · intro dir _
        rw [locate_eq, locate_eq, hForm]
    · rintro ⟨hAnchor, hPlace⟩
      exact folded_eq_of_locate hAnchor hPlace

end Path

end ClientRegistry
